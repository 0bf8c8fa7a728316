import Iputils.LinkMessages
import Iputils.LinkRuns

/-!
# The handshake

The client and the mock, put together: if the libraries work and the keys belong together,
the client registers at the first try, derives the key that the shares of both determine,
pins the key of the mock, and gets a position. The mock sees the same contributions and signs
the same bytes, although the day of the client has been rounded on the way.
-/
set_option autoImplicit false

namespace Iputils.Handshake
open BraceFraming BridgeFields BridgeBytes EciesEnvelope LinkTranscript LinkClient MockBridge
open LinkMessages LinkRuns PrintfText ScanText QuotedWords

section Setting

/-- The libraries do not fail on keys that are valid. -/
structure Total {Point : Type} (c : Crypto Point) : Prop where
  ecdh : ∀ P priv Q, c.pubkeyCreate priv = some Q → ∃ x, c.ecdh P priv = some x
  hkdf : ∀ ikm salt info, ∃ key, c.hkdf ikm salt info = some key
  encrypt : ∀ key iv aad pt, ∃ ct tag, c.gcmEncrypt key iv aad pt = some (ct, tag) ∧
    ct.length = pt.length
  sign : ∀ priv pub msg, c.p256Pub priv = some pub →
    ∃ sig, c.p256Sign priv msg = some sig ∧ sig.length ≤ 256

/-- What the client draws. -/
structure ClientKeys where
  nonce : List.Vector UInt8 16
  share : List.Vector UInt8 32
  ephPriv : List.Vector UInt8 32
  envelopePriv : List.Vector UInt8 32
  iv : List.Vector UInt8 12
  now : ℤ

def ClientKeys.draws (k : ClientKeys) : Draws :=
  ⟨some k.nonce, some k.share, some k.ephPriv, some k.envelopePriv, some k.iv, k.now, true⟩

/-- What the mock draws. -/
structure BridgeKeys where
  sessionId : List.Vector UInt8 16
  share : List.Vector UInt8 32
  envelopePriv : List.Vector UInt8 32
  iv : List.Vector UInt8 12
  now : ℤ

def BridgeKeys.draws (k : BridgeKeys) : BridgeDraws :=
  ⟨some k.sessionId, some k.share, some k.envelopePriv, some k.iv, k.now⟩

/-- A character of a string. -/
def Byte (ch : Char) : Prop := ch ≠ '\x00' ∧ ch.toNat < 256

instance decidableByte : DecidablePred Byte := fun _ => inferInstanceAs (Decidable (_ ∧ _))

/-- Lengths that the constructor of a client sees to, and strings of bytes. -/
structure Ready (client : Client) : Prop where
  name : client.agentName.length ≤ 63
  version : client.agentVersion.length ≤ 63
  ttl : 1 ≤ client.ttlSeconds ∧ client.ttlSeconds ≤ 28800
  bytes : (∀ ch ∈ client.agentName, Byte ch) ∧ ∀ ch ∈ client.agentVersion, Byte ch

end Setting

section Texts
variable {t : ℤ} {text : List Char}

theorem mem_fixedText {x : ℚ} {ch : Char} (h : ch ∈ fixedText x) :
    ch = '.' ∨ ch = '-' ∨ ch.isDigit = true := by
  rcases List.mem_append.mp h with h | h
  · exact Or.inr (mem_decText h)
  · rcases List.mem_cons.mp h with rfl | h
    · exact Or.inl rfl
    · exact Or.inr (mem_padText h)

theorem length_fixedText (h0 : 0 ≤ t) (ht : t < 2 ^ 40) :
    (fixedText (issuedAtBd t)).length ≤ 30 := by
  have ht' : (t : ℚ) < 2 ^ 40 := by exact_mod_cast ht
  have hnear := (abs_le.mp (issuedAtBd_near h0 ht)).2
  have hq : 0 ≤ issuedAtBd t * 10 ^ 6 ∧ issuedAtBd t * 10 ^ 6 < 10 ^ 14 - 1 :=
    ⟨mul_nonneg (issuedAtBd_nonneg h0) (by norm_num), by linarith⟩
  unfold fixedText
  generalize issuedAtBd t * 10 ^ 6 = q at hq
  have hround := (abs_le.mp (Binary64.nearestEven_sub q)).2
  have hn := Binary64.nearestEven_nonneg hq.1
  have hlt : Binary64.nearestEven q < 10 ^ 14 := by
    have hcast : ((Binary64.nearestEven q : ℤ) : ℚ) < (10 ^ 14 : ℤ) := by
      push_cast
      linarith [hq.2]
    exact_mod_cast hcast
  generalize Binary64.nearestEven q = n at hn hlt
  have hwhole : (decText (n / 10 ^ 6)).length ≤ 8 + 1 :=
    length_decText_le (by decide) (by omega)
  have hplaces : (padText 6 (n % 10 ^ 6)).length ≤ 6 + 6 + 1 :=
    length_padText_le (by decide) (by omega)
  simp only [List.length_append, List.length_cons]
  omega

/-- The bytes of a text are the text. -/
theorem cString_textBytes (h : ∀ ch ∈ text, Byte ch) :
    cString (GeoLookup.byteText (textBytes text)) = text := by
  have hbytes : GeoLookup.byteText (textBytes text) = text := by
    induction text with
    | nil => rfl
    | cons ch text ih =>
        have hch := (h ch List.mem_cons_self).2
        have hback : Char.ofNat (UInt8.ofNat ch.toNat).toNat = ch := by
          rw [UInt8.toNat_ofNat', Nat.mod_eq_of_lt hch, Char.ofNat_toNat]
        have hrest := ih fun d hd => h d (List.mem_cons_of_mem ch hd)
        simp only [GeoLookup.byteText, textBytes, List.map_cons] at hrest ⊢
        rw [hback, hrest]
  rw [hbytes]
  exact copied_of_forall fun ch hch => (h ch hch).1

theorem digit_byte {ch : Char} (h : ch.isDigit = true) : Byte ch := by
  simp only [Char.isDigit, Bool.and_eq_true, decide_eq_true_eq] at h
  have hhigh := UInt32.le_iff_toNat_le.mp h.2
  refine ⟨?_, lt_of_le_of_lt hhigh (by decide)⟩
  rintro rfl
  exact absurd h.1 (by decide)

theorem digit64_byte (n : Fin 64) : Byte (Base64.digit n) := by
  revert n
  decide +kernel

theorem encode_byte {bs : List UInt8} {ch : Char} (h : ch ∈ Base64.encode bs) : Byte ch := by
  rcases Base64.mem_encode h with rfl | ⟨n, rfl⟩
  · decide
  · exact digit64_byte n

end Texts

section Request
variable {Point : Type} {c : Crypto Point} {evp : Evp} {client : Client} {m : Material}

/-- The fields of the text that goes into the envelope. -/
def plainFields (client : Client) (m : Material) : List Field :=
  [⟨"v".toList, .bare ['1']⟩, ⟨"clientPub".toList, .text (Base64.encode m.ephPub.toList)⟩,
    ⟨"clientShare".toList, .text (Base64.encode m.share.toList)⟩,
    ⟨"issuedAtBd".toList, .bare (fixedText m.issuedAtBd)⟩,
    ⟨"ttlSeconds".toList, .bare (decText client.ttlSeconds)⟩,
    ⟨"agent".toList, .bare (objectOf [⟨"name".toList, .text client.agentName⟩,
      ⟨"version".toList, .text client.agentVersion⟩,
      ⟨"platform".toList, .text "libbrightlink-c".toList⟩])⟩]

theorem plaintextJson_eq (hevp : evp.Rfc4648) (client : Client) (m : Material) :
    plaintextJson evp client m = objectOf (plainFields client m) := by
  have hpub : blcB64encode evp m.ephPub.toList 128 = some (Base64.encode m.ephPub.toList) :=
    blcB64encode_fits hevp (by rw [m.ephPub.toList_length]; decide)
  have hshare : blcB64encode evp m.share.toList 64 = some (Base64.encode m.share.toList) :=
    blcB64encode_fits hevp (by rw [m.share.toList_length]; decide)
  simp only [plaintextJson, hpub, hshare, Option.getD_some, plainFields]

theorem length_plain (hclient : Ready client) (hissued : (fixedText m.issuedAtBd).length ≤ 30) :
    (objectOf (plainFields client m)).length < 1024 := by
  have hname := hclient.name
  have hversion := hclient.version
  have hpub : (Base64.encode m.ephPub.toList).length = 88 := by
    rw [Base64.length_encode, m.ephPub.toList_length]
  have hshare : (Base64.encode m.share.toList).length = 44 := by
    rw [Base64.length_encode, m.share.toList_length]
  have httl : (decText client.ttlSeconds).length ≤ 5 + 1 := by
    have hrange := hclient.ttl
    exact length_decText_le (by decide) (by omega)
  have hkeys : "v".toList.length = 1 ∧ "clientPub".toList.length = 9 ∧
      "clientShare".toList.length = 11 ∧ "issuedAtBd".toList.length = 10 ∧
      "ttlSeconds".toList.length = 10 ∧ "agent".toList.length = 5 ∧ "name".toList.length = 4 ∧
      "version".toList.length = 7 ∧ "platform".toList.length = 8 ∧
      "libbrightlink-c".toList.length = 15 := by decide
  simp only [plainFields, length_objectOf, List.map_cons, List.map_nil, List.sum_cons,
    List.sum_nil, size, FieldValue.render, quoted, List.length_cons, List.length_append,
    List.length_nil, hpub, hshare, hkeys]
  omega

/-- What the request for a registration has in it. -/
def registerFields (nonce envelope : List UInt8) : List Field :=
  [⟨"cmd".toList, .text "LINK_REGISTER".toList⟩, ⟨"protocolVersion".toList, .bare ['1']⟩,
    ⟨"clientNonce".toList, .text (Base64.encode nonce)⟩,
    ⟨"envelope".toList, .text (Base64.encode envelope)⟩]

theorem length_register (nonce : List.Vector UInt8 16) (envelope : List UInt8) :
    (objectOf (registerFields nonce.toList envelope)).length =
      (Base64.encode envelope).length + 98 := by
  have hnonce : (Base64.encode nonce.toList).length = 24 := by
    rw [Base64.length_encode, nonce.toList_length]
  have hkeys : "cmd".toList.length = 3 ∧ "LINK_REGISTER".toList.length = 13 ∧
      "protocolVersion".toList.length = 15 ∧ "clientNonce".toList.length = 11 ∧
      "envelope".toList.length = 8 := by decide
  simp only [registerFields, length_objectOf, List.map_cons, List.map_nil, List.sum_cons,
    List.sum_nil, size, FieldValue.render, quoted, List.length_cons, List.length_append,
    List.length_nil, hnonce, hkeys]
  omega

/-- An envelope for a valid key can be made, and its owner can open it. -/
theorem exists_envelope (hc : c.Lawful) (ht : Total c) {priv ephPriv : List.Vector UInt8 32}
    {P E : Point} (hP : c.pubkeyCreate priv = some P) (hE : c.pubkeyCreate ephPriv = some E)
    (iv : List.Vector UInt8 12) (pt : List UInt8) :
    ∃ envelope, blcEciesEncrypt c (c.serialize65 P).toList pt (some ephPriv) (some iv) =
        some envelope ∧
      blcEciesDecrypt c priv envelope = some pt ∧ envelope.length = 64 + pt.length := by
  obtain ⟨x, hx⟩ := ht.ecdh P ephPriv E hE
  obtain ⟨key, hkey⟩ := ht.hkdf x [] eciesInfo
  have henvelopeKey : envelopeKey c (c.serialize65 P).toList ephPriv = some key := by
    simp only [envelopeKey, hc.parse65, hx, hkey, Option.bind_eq_bind, Option.bind_some]
  obtain ⟨ct, tag, hgcm, hlen⟩ :=
    ht.encrypt key iv.toList (envelopeHeader ++ (c.serialize33 E).toList) pt
  have hcipher : blcAesGcmEncrypt c key iv.toList (envelopeHeader ++ (c.serialize33 E).toList) pt =
      some (ct, tag) := by
    rw [blcAesGcmEncrypt, hgcm]
    exact if_pos (by simpa using hlen)
  have hpub : blcSecpPubCompressed c ephPriv = some (c.serialize33 E) := by
    rw [blcSecpPubCompressed, hE, Option.map_some]
  have henc : blcEciesEncrypt c (c.serialize65 P).toList pt (some ephPriv) (some iv) =
      some (envelopeHeader ++ ((c.serialize33 E).toList ++ (iv.toList ++ (tag.toList ++ ct)))) := by
    simp only [blcEciesEncrypt, hpub, henvelopeKey, hcipher, Option.bind_eq_bind, Option.bind_some]
  exact ⟨_, henc, decrypt_sealed hc hP hE henvelopeKey hgcm hlen⟩

theorem ok_bind {α β : Type} (a : α) (f : α → Except BlStatus β) :
    ((Except.ok a : Except BlStatus α) >>= f) = f a := rfl

/-- What the client contributes, with the public key of its own. -/
def ClientKeys.material (k : ClientKeys) (c : Crypto Point) (E : Point) : Material :=
  ⟨k.nonce, k.share, k.ephPriv, c.serialize65 E, issuedAtBd k.now⟩

theorem material_draws {k : ClientKeys} {E : Point} (hE : c.pubkeyCreate k.ephPriv = some E) :
    LinkClient.material c k.draws = some (k.material c E) := by
  simp only [LinkClient.material, ClientKeys.draws, blcSecpPubUncompressed, hE, Option.map_some,
    Option.bind_eq_bind, Option.bind_some, ClientKeys.material]

/-- The client can make its request, and the owner of the key opens the envelope in it. -/
theorem exists_request (hc : c.Lawful) (ht : Total c) (hevp : evp.Rfc4648) (hclient : Ready client)
    {priv : List.Vector UInt8 32} {P E F : Point} (hP : c.pubkeyCreate priv = some P)
    {k : ClientKeys} (hE : c.pubkeyCreate k.ephPriv = some E)
    (hF : c.pubkeyCreate k.envelopePriv = some F) (hnow : 0 ≤ k.now ∧ k.now < 2 ^ 40) :
    ∃ envelope, registerRequest c evp client (c.serialize65 P) k.draws =
        .ok (k.material c E, objectOf (registerFields k.nonce.toList envelope)) ∧
      blcEciesDecrypt c priv envelope =
        some (textBytes (objectOf (plainFields client (k.material c E)))) ∧
      envelope.length < 1088 := by
  have hissued : (fixedText (k.material c E).issuedAtBd).length ≤ 30 :=
    length_fixedText hnow.1 hnow.2
  have hplain := length_plain hclient hissued
  obtain ⟨envelope, henc, hdec, hlen⟩ := exists_envelope hc ht hP hF k.iv
    (textBytes (objectOf (plainFields client (k.material c E))))
  rw [textBytes, List.length_map] at hlen
  refine ⟨envelope, ?_, hdec, by omega⟩
  have henc' : blcEciesEncrypt c (c.serialize65 P).toList
      (textBytes (objectOf (plainFields client (k.material c E)))) k.draws.envelopePriv
        k.draws.envelopeIv = some envelope := henc
  have hb64 : blcB64encode evp envelope (4 * ((envelope.length + 2) / 3) + 1) =
      some (Base64.encode envelope) := blcB64encode_fits hevp le_rfl
  have hnonce : blcB64encode evp (k.material c E).nonce.toList 32 =
      some (Base64.encode k.nonce.toList) :=
    blcB64encode_fits hevp (by rw [List.Vector.toList_length]; decide)
  have hfits : ¬ (registerJson (Base64.encode k.nonce.toList) (Base64.encode envelope)).length ≥
      (Base64.encode envelope).length + 256 := by
    have hlength := length_register k.nonce envelope
    rw [registerFields, ← registerJson] at hlength
    omega
  unfold registerRequest
  simp only [material_draws hE, need, plaintextJson_eq hevp, ok_bind, if_neg (not_le.mpr hplain),
    henc', hb64, hnonce, if_neg hfits]
  rfl

end Request

section Answer
variable {Point : Type} {c : Crypto Point} {evp : Evp} {client : Client} {m : Mock}

theorem count_register (nonce envelope : List UInt8) :
    (objectOf (registerFields nonce envelope)).count '_' = 1 := by
  have hkeys : "cmd".toList.count '_' = 0 ∧ "LINK_REGISTER".toList.count '_' = 1 ∧
      "protocolVersion".toList.count '_' = 0 ∧ ['1'].count '_' = 0 ∧
      "clientNonce".toList.count '_' = 0 ∧ "envelope".toList.count '_' = 0 := by decide
  rw [count_objectOf (by decide)]
  simp only [registerFields, List.map_cons, List.map_nil, List.sum_cons, List.sum_nil, content,
    encode_no_underscore, hkeys, Nat.add_zero]

/-- The mock takes the request for what it is, although it looks for the names anywhere. -/
theorem handle_register {d : BridgeDraws} {draws : List BridgeDraws} (hm : m.draws = d :: draws)
    (nonce envelope : List UInt8) :
    handle c evp m (objectOf (registerFields nonce envelope)) =
      ({ m with draws := draws },
        handleLinkRegister c evp m d (objectOf (registerFields nonce envelope))) := by
  have hcount := count_register nonce envelope
  have hpublic : strstr "GET_PUBLIC_KEY".toList (objectOf (registerFields nonce envelope)) =
      none := strstr_count (c := '_') (by rw [hcount]; decide)
  have henclave : strstr "GET_ENCLAVE_PUBLIC_KEY".toList
      (objectOf (registerFields nonce envelope)) = none :=
    strstr_count (c := '_') (by rw [hcount]; decide)
  have hregister : strstr "LINK_REGISTER".toList (objectOf (registerFields nonce envelope)) ≠
      none := by
    refine strstr_inside ?_
    rw [objectOf, registerFields, weave_field]
    exact ⟨'\x7b' :: (quoted "cmd".toList ++ [':', '"']), _, by
      simp [valueOn, FieldValue.render, quoted]; rfl⟩
  unfold handle
  rw [if_neg (fun h => h.1 hpublic), if_neg (fun h => h henclave), if_pos hregister, hm]

theorem plain_byte (hclient : Ready client) (k : Material) :
    ∀ ch ∈ objectOf (plainFields client k), Byte ch := by
  have hagent : ∀ ch ∈ objectOf [⟨"name".toList, .text client.agentName⟩,
      ⟨"version".toList, .text client.agentVersion⟩,
      ⟨"platform".toList, .text "libbrightlink-c".toList⟩], Byte ch := by
    refine forall_objectOf (by decide) ?_
    simp only [List.forall_mem_cons]
    exact ⟨⟨by decide, hclient.bytes.1⟩, ⟨by decide, hclient.bytes.2⟩, by decide,
      List.forall_mem_nil _⟩
  have hdec : ∀ ch ∈ decText client.ttlSeconds, Byte ch := by
    intro ch hch
    rcases mem_decText hch with rfl | hdigit
    · decide
    · exact digit_byte hdigit
  have hfixed : ∀ ch ∈ fixedText k.issuedAtBd, Byte ch := by
    intro ch hch
    rcases mem_fixedText hch with rfl | rfl | hdigit
    · decide
    · decide
    · exact digit_byte hdigit
  refine forall_objectOf (by decide) ?_
  simp only [plainFields, List.forall_mem_cons]
  exact ⟨by decide, ⟨by decide, fun _ => encode_byte⟩, ⟨by decide, fun _ => encode_byte⟩,
    ⟨by decide, hfixed⟩, ⟨by decide, hdec⟩, ⟨by decide, hagent⟩, List.forall_mem_nil _⟩

theorem exactly_toList {n : ℕ} (v : List.Vector UInt8 n) : exactly n v.toList = some v := by
  obtain ⟨l, hl⟩ := v
  exact dif_pos hl

theorem decode_vector (hevp : evp.Rfc4648) {n : ℕ} (v : List.Vector UInt8 n) :
    (blcB64decode evp (Base64.encode v.toList) n).bind (exactly n) = some v := by
  rw [blcB64decode_encode hevp, if_neg (by simp), Option.bind_some, exactly_toList]

theorem strtol_decText (x : ℤ) {ch : Char} (hch : ch.isDigit = false) (rest : List Char) :
    (IntegerText.strtol .ten (decText x ++ ch :: rest)).1 = HopTable.longClamp x := by
  rw [IntegerText.strtol, IntegerText.strto, scanInteger_decText x hch]

theorem plain_fixedText {key : List Char} (hkey : '"' ∉ key) (x : ℚ) :
    Field.Plain ⟨key, .bare (fixedText x)⟩ := by
  refine plain_bare hkey (fun h => ?_) fun ch hch => ?_
  · rcases mem_fixedText h with h | h | h
    · cases h
    · cases h
    · cases h
  · rcases mem_fixedText (List.mem_of_mem_head? hch) with rfl | rfl | hdigit
    · rfl
    · rfl
    · exact isWs_digit hdigit

theorem grantedTtl_ready (hclient : Ready client) :
    grantedTtl (HopTable.longClamp client.ttlSeconds) = min client.ttlSeconds 3600 := by
  obtain ⟨hlow, hhigh⟩ := hclient.ttl
  unfold grantedTtl HopTable.longClamp
  dsimp only
  split_ifs <;> omega

/-- The mock finds in the envelope what the client has put there; the day that it finds leads
to the same second. -/
theorem contribution_plain (hevp : evp.Rfc4648) (hclient : Ready client) (E : Point)
    {k : ClientKeys} (hnow : 0 ≤ k.now ∧ k.now < 2 ^ 40) :
    ∃ day, contribution evp (objectOf (plainFields client (k.material c E))) =
        some ⟨c.serialize65 E, k.share, day, min client.ttlSeconds 3600⟩ ∧
      issuedAtUnix day = k.now := by
  have hv : Field.Plain ⟨"v".toList, .bare ['1']⟩ :=
    plain_bare (by decide) (by decide) (by simp [JsonText.isWs])
  have hpub : Field.Plain ⟨"clientPub".toList, .text (Base64.encode (c.serialize65 E).toList)⟩ :=
    plain_encode (by decide) _
  have hshare : Field.Plain ⟨"clientShare".toList, .text (Base64.encode k.share.toList)⟩ :=
    plain_encode (by decide) _
  have hissued : Field.Plain ⟨"issuedAtBd".toList, .bare (fixedText (issuedAtBd k.now))⟩ :=
    plain_fixedText (by decide) _
  have hreadPub : mockFieldStr (objectOf (plainFields client (k.material c E)))
      "clientPub".toList 256 = some (Base64.encode (c.serialize65 E).toList) := by
    refine mockFieldStr_field (key_letters (by decide)) (encode_bland _)
      (List.forall_mem_singleton.mpr hv) ?_ ?_ _
    · exact List.forall_mem_singleton.mpr (other_bare (by decide))
    · rw [Base64.length_encode, List.Vector.toList_length]
      decide
  have hreadShare : mockFieldStr (objectOf (plainFields client (k.material c E)))
      "clientShare".toList 64 = some (Base64.encode k.share.toList) := by
    refine mockFieldStr_field (key_letters (by decide)) (encode_bland _)
      (List.forall_mem_cons.mpr ⟨hv, List.forall_mem_singleton.mpr hpub⟩) ?_ ?_ _
    · rw [List.forall_mem_cons, List.forall_mem_singleton]
      exact ⟨other_bare (by decide), other_text (by decide) (encode_length_ne (by decide))⟩
    · rw [Base64.length_encode, List.Vector.toList_length]
      decide
  have hlocateDay : ∃ rest, jsonLocate (objectOf (plainFields client (k.material c E)))
      "issuedAtBd".toList = some (fixedText (issuedAtBd k.now) ++ ',' :: rest) := by
    refine ⟨_, jsonLocate_field (key_letters (by decide)) (List.forall_mem_cons.mpr ⟨hv,
      List.forall_mem_cons.mpr ⟨hpub, List.forall_mem_singleton.mpr hshare⟩⟩) hissued ?_ (_ :: _)⟩
    rw [List.forall_mem_cons, List.forall_mem_cons, List.forall_mem_singleton]
    exact ⟨other_bare (by decide), other_text (by decide) (encode_length_ne (by decide)),
      other_text (by decide) (encode_length_ne (by decide))⟩
  have hlocateTtl : ∃ rest, jsonLocate (objectOf (plainFields client (k.material c E)))
      "ttlSeconds".toList = some (decText client.ttlSeconds ++ ',' :: rest) := by
    refine ⟨_, jsonLocate_field (key_letters (by decide)) (List.forall_mem_cons.mpr ⟨hv,
      List.forall_mem_cons.mpr ⟨hpub, List.forall_mem_cons.mpr ⟨hshare,
        List.forall_mem_singleton.mpr hissued⟩⟩⟩) (plain_decText (by decide) _) ?_ (_ :: _)⟩
    rw [List.forall_mem_cons, List.forall_mem_cons, List.forall_mem_cons,
      List.forall_mem_singleton]
    exact ⟨other_bare (by decide), other_text (by decide) (encode_length_ne (by decide)),
      other_text (by decide) (encode_length_ne (by decide)), other_bare (by decide)⟩
  obtain ⟨rest, hday⟩ := hlocateDay
  obtain ⟨rest', httl⟩ := hlocateTtl
  refine ⟨strtod (fixedText (issuedAtBd k.now) ++ ',' :: rest), ?_,
    issued_bridge hnow.1 hnow.2 (by simp [NumeralText.Ends, NumeralText.enders])⟩
  simp only [contribution, hreadPub, hreadShare, hday, httl, decode_vector hevp,
    Option.bind_eq_bind, Option.bind_some, strtol_decText _ (show ','.isDigit = false from rfl),
    grantedTtl_ready hclient]

/-- What the answer to a registration has in it. -/
def answerFields (sessionId envelope sig : List UInt8) (issued ttl : ℤ) : List Field :=
  [⟨"ok".toList, .bare "true".toList⟩, ⟨"sessionId".toList, .text (Base64.encode sessionId)⟩,
    ⟨"bridgeIssuedAtUnix".toList, .bare (decText issued)⟩,
    ⟨"ttlSeconds".toList, .bare (decText ttl)⟩,
    ⟨"responseEnvelope".toList, .text (Base64.encode envelope)⟩,
    ⟨"transcriptSig".toList, .text (Base64.encode sig)⟩]

theorem length_answer {sessionId envelope sig : List UInt8} {issued ttl : ℤ}
    (hid : sessionId.length = 16) (henv : envelope.length = 96) (hsig : sig.length ≤ 256)
    (hissued : 0 ≤ issued ∧ issued < 2 ^ 63) (httl : 1 ≤ ttl ∧ ttl ≤ 3600) :
    129 ≤ (objectOf (answerFields sessionId envelope sig issued ttl)).length ∧
      (objectOf (answerFields sessionId envelope sig issued ttl)).length < 1000 := by
  have hidText : (Base64.encode sessionId).length = 24 := by rw [Base64.length_encode, hid]
  have henvText : (Base64.encode envelope).length = 128 := by rw [Base64.length_encode, henv]
  have hsigText : (Base64.encode sig).length ≤ 344 := by
    rw [Base64.length_encode]
    omega
  have hissuedText : (decText issued).length ≤ 20 + 1 := length_decText_le (by decide) (by omega)
  have httlText : (decText ttl).length ≤ 4 + 1 := length_decText_le (by decide) (by omega)
  have hkeys : "ok".toList.length = 2 ∧ "true".toList.length = 4 ∧
      "sessionId".toList.length = 9 ∧ "bridgeIssuedAtUnix".toList.length = 18 ∧
      "ttlSeconds".toList.length = 10 ∧ "responseEnvelope".toList.length = 16 ∧
      "transcriptSig".toList.length = 13 := by decide
  simp only [answerFields, length_objectOf, List.map_cons, List.map_nil, List.sum_cons,
    List.sum_nil, size, FieldValue.render, quoted, List.length_cons, List.length_append,
    List.length_nil, hidText, henvText, hkeys]
  constructor <;> omega

/-- The mock can sign and seal an answer for a valid key. -/
theorem exists_answer (hc : c.Lawful) (ht : Total c) (hevp : evp.Rfc4648)
    (hpub : c.p256Pub m.p256Priv = some m.p256Pub65) {ephPriv : List.Vector UInt8 32} {E F : Point}
    (hE : c.pubkeyCreate ephPriv = some E) {b : BridgeKeys}
    (hF : c.pubkeyCreate b.envelopePriv = some F) (hnow : 0 ≤ b.now ∧ b.now < 2 ^ 63)
    (nonce : List.Vector UInt8 16) (k : Contribution) (hk : k.pub65 = c.serialize65 E)
    (httl : 1 ≤ k.ttl ∧ k.ttl ≤ 3600) :
    ∃ envelope sig, sealAnswer c evp m b.draws nonce k =
        some (objectOf (answerFields b.sessionId.toList envelope sig b.now k.ttl)) ∧
      blcEciesDecrypt c ephPriv envelope = some b.share.toList ∧ envelope.length = 96 ∧
      c.p256Sign m.p256Priv
        (buildTranscript ⟨nonce, k.pub65, k.share, b.sessionId, b.share⟩ k.issuedAtBd b.now k.ttl) =
          some sig ∧ sig.length ≤ 256 := by
  obtain ⟨sig, hsign, hsig⟩ := ht.sign m.p256Priv m.p256Pub65
    (buildTranscript ⟨nonce, k.pub65, k.share, b.sessionId, b.share⟩ k.issuedAtBd b.now k.ttl) hpub
  obtain ⟨envelope, henc, hdec, henv⟩ := exists_envelope hc ht hE hF b.iv b.share.toList
  rw [List.Vector.toList_length] at henv
  refine ⟨envelope, sig, ?_, hdec, henv, hsign, hsig⟩
  have hsigned : blcSignP256 c m.p256Priv
      (buildTranscript ⟨nonce, k.pub65, k.share, b.sessionId, b.share⟩ k.issuedAtBd b.now k.ttl) =
        some sig := by
    rw [blcSignP256, hsign]
    exact if_pos (by simpa using hsig)
  have hidText : blcB64encode evp b.sessionId.toList 32 =
      some (Base64.encode b.sessionId.toList) :=
    blcB64encode_fits hevp (by rw [List.Vector.toList_length]; decide)
  have henvText : blcB64encode evp envelope 2048 = some (Base64.encode envelope) :=
    blcB64encode_fits hevp (by rw [henv]; decide)
  have hsigText : blcB64encode evp sig 1024 = some (Base64.encode sig) :=
    blcB64encode_fits hevp (by omega)
  have hlength := length_answer b.sessionId.toList_length henv hsig hnow httl
  rw [← hk] at henc
  unfold sealAnswer
  simp only [BridgeKeys.draws, hsigned, henc, hidText, henvText, hsigText, Option.bind_eq_bind,
    Option.bind_some, Option.getD_some]
  exact if_neg (by rw [registerAnswer, ← answerFields]; omega)

theorem plain_answer {sessionId envelope sig : List UInt8} {issued ttl : ℤ} :
    ∀ f ∈ answerFields sessionId envelope sig issued ttl, f.Plain := by
  simp only [answerFields, List.forall_mem_cons]
  exact ⟨plain_ok, plain_encode (by decide) _, plain_decText (by decide) _,
    plain_decText (by decide) _, plain_encode (by decide) _, plain_encode (by decide) _,
    List.forall_mem_nil _⟩

theorem encode_ne {bs : List UInt8} {key : List Char}
    (h : 4 * ((bs.length + 2) / 3) ≠ key.length) : Base64.encode bs ≠ key := by
  rintro rfl
  exact h (Base64.length_encode bs).symm

theorem whole_answer {sessionId envelope sig : List UInt8} {issued ttl : ℤ}
    (hlen : (objectOf (answerFields sessionId envelope sig issued ttl)).length < 1000) :
    Whole (objectOf (answerFields sessionId envelope sig issued ttl)) := by
  have hnumber : ∀ x : ℤ, ∀ ch ∈ decText x, BraceFraming.Plain ch ∧ ch ≠ '\x00' := by
    intro x ch hch
    rcases mem_decText hch with rfl | hdigit
    · decide
    · refine ⟨⟨?_, ?_, ?_⟩, ?_⟩ <;> rintro rfl <;> cases hdigit
  refine whole_objectOf ?_ (by rw [answerFields] at hlen; omega)
  simp only [List.forall_mem_cons]
  exact ⟨sendable_ok, sendable_encode (by decide) _, sendable_bare (by decide) (hnumber _),
    sendable_bare (by decide) (hnumber _), sendable_encode (by decide) _,
    sendable_encode (by decide) _, List.forall_mem_nil _⟩

theorem length_id (sessionId : List.Vector UInt8 16) {s : List Char} (hs : s.length ≠ 24) :
    Base64.encode sessionId.toList ≠ s :=
  encode_ne (by rw [List.Vector.toList_length]; exact hs.symm)

section Reading
variable {sessionId : List.Vector UInt8 16} {envelope sig : List UInt8} {issued ttl : ℤ}

theorem plain_id :
    Field.Plain ⟨"sessionId".toList, .text (Base64.encode sessionId.toList)⟩ :=
  plain_encode (by decide) _

theorem plain_issued : Field.Plain ⟨"bridgeIssuedAtUnix".toList, .bare (decText issued)⟩ :=
  plain_decText (by decide) _

theorem plain_ttl : Field.Plain ⟨"ttlSeconds".toList, .bare (decText ttl)⟩ :=
  plain_decText (by decide) _

theorem read_issued (hissued : 0 ≤ issued ∧ issued < 2 ^ 63) :
    jsonFieldInt (objectOf (answerFields sessionId.toList envelope sig issued ttl))
      "bridgeIssuedAtUnix".toList = some issued := by
  refine (jsonFieldInt_field issued (key_letters (by decide)) (List.forall_mem_cons.mpr
    ⟨plain_ok, List.forall_mem_singleton.mpr plain_id⟩) ?_ _).trans (congrArg some ?_)
  · rw [List.forall_mem_cons, List.forall_mem_singleton]
    exact ⟨other_bare (by decide), other_text (by decide) (length_id _ (by decide))⟩
  · unfold HopTable.longClamp
    omega

theorem read_ttl (httl : 1 ≤ ttl ∧ ttl ≤ 3600) :
    jsonFieldInt (objectOf (answerFields sessionId.toList envelope sig issued ttl))
      "ttlSeconds".toList = some ttl := by
  refine (jsonFieldInt_field ttl (key_letters (by decide)) (List.forall_mem_cons.mpr
    ⟨plain_ok, List.forall_mem_cons.mpr ⟨plain_id,
      List.forall_mem_singleton.mpr plain_issued⟩⟩) ?_ _).trans (congrArg some ?_)
  · rw [List.forall_mem_cons, List.forall_mem_cons, List.forall_mem_singleton]
    exact ⟨other_bare (by decide), other_text (by decide) (length_id _ (by decide)),
      other_bare (by decide)⟩
  · unfold HopTable.longClamp
    omega

theorem read_id (hevp : evp.Rfc4648) :
    jsonFieldB64 evp (objectOf (answerFields sessionId.toList envelope sig issued ttl))
      "sessionId".toList 16 = some sessionId.toList := by
  refine bytes_found hevp (key_letters (by decide)) (List.forall_mem_singleton.mpr plain_ok) ?_ _ ?_
  · rw [List.forall_mem_singleton]
    decide
  · rw [List.Vector.toList_length]
    exact ⟨by decide, le_rfl, by simp⟩

theorem read_envelope (henv : envelope.length = 96) {cap : ℕ} (hcap : 129 ≤ cap) :
    jsonFieldStr (objectOf (answerFields sessionId.toList envelope sig issued ttl))
      "responseEnvelope".toList cap = some (Base64.encode envelope) := by
  refine field_found (key_letters (by decide)) (by omega) (encode_bland _)
    (List.forall_mem_cons.mpr ⟨plain_ok, List.forall_mem_cons.mpr ⟨plain_id,
      List.forall_mem_cons.mpr ⟨plain_issued, List.forall_mem_singleton.mpr plain_ttl⟩⟩⟩)
    ?_ _ ⟨by rw [Base64.length_encode, henv]; omega, ?_⟩
  · simp only [List.forall_mem_cons]
    exact ⟨by decide, by decide, by decide, by decide, List.forall_mem_nil _⟩
  · simp only [List.forall_mem_cons]
    exact ⟨by simp, fun h => length_id _ (by decide) (FieldValue.text.inj h), by simp, by simp,
      List.forall_mem_nil _⟩

theorem read_sig (hsig : sig.length ≤ 256) :
    jsonFieldStr (objectOf (answerFields sessionId.toList envelope sig issued ttl))
      "transcriptSig".toList 1024 = some (Base64.encode sig) := by
  have hplain : Field.Plain ⟨"responseEnvelope".toList, .text (Base64.encode envelope)⟩ :=
    plain_encode (by decide) _
  refine field_found (key_letters (by decide)) (by decide) (encode_bland _)
    (List.forall_mem_cons.mpr ⟨plain_ok, List.forall_mem_cons.mpr ⟨plain_id,
      List.forall_mem_cons.mpr ⟨plain_issued, List.forall_mem_cons.mpr ⟨plain_ttl,
        List.forall_mem_singleton.mpr hplain⟩⟩⟩⟩)
    ?_ _ ⟨by rw [Base64.length_encode]; omega, ?_⟩
  · simp only [List.forall_mem_cons]
    exact ⟨by decide, by decide, by decide, by decide, by decide, List.forall_mem_nil _⟩
  · simp only [List.forall_mem_cons]
    exact ⟨by simp, fun h => length_id _ (by decide) (FieldValue.text.inj h), by simp, by simp,
      fun h => encode_length_ne (by decide) (FieldValue.text.inj h), List.forall_mem_nil _⟩

end Reading

/-- The client accepts an answer that has been signed over the same second. -/
theorem accept_answer (hc : c.Lawful) (ht : Total c) (hevp : evp.Rfc4648)
    {priv : List.Vector UInt8 32} {pub : List.Vector UInt8 65} (hpub : c.p256Pub priv = some pub)
    (k : Material) {sessionId : List.Vector UInt8 16} {share : List.Vector UInt8 32}
    {envelope sig : List UInt8} {issued ttl : ℤ} {day : ℚ}
    (hdec : blcEciesDecrypt c k.ephPriv envelope = some share.toList)
    (hsign : c.p256Sign priv
      (buildTranscript ⟨k.nonce, k.ephPub, k.share, sessionId, share⟩ day issued ttl) = some sig)
    (henv : envelope.length = 96) (hsig : sig.length ≤ 256)
    (hday : issuedAtUnix day = issuedAtUnix k.issuedAtBd)
    (hissued : 0 ≤ issued ∧ issued < 2 ^ 63) (httl : 1 ≤ ttl ∧ ttl ≤ 3600) :
    ∃ key, sessionKey c k.nonce.toList sessionId.toList k.share.toList share.toList = some key ∧
      acceptRegistration c evp k pub
        (objectOf (answerFields sessionId.toList envelope sig issued ttl)) =
          .ok ⟨sessionId, key⟩ := by
  obtain ⟨key, hkey⟩ := ht.hkdf (k.share.toList ++ share.toList)
    (k.nonce.toList ++ sessionId.toList) sessionInfo
  refine ⟨key, hkey, ?_⟩
  have hlength := length_answer sessionId.toList_length henv hsig hissued httl
  have hdecodeEnv : blcB64decode evp (Base64.encode envelope)
      ((objectOf (answerFields sessionId.toList envelope sig issued ttl)).length + 1) =
        some envelope := by
    rw [blcB64decode_encode hevp, if_neg (by omega)]
  have hdecodeSig : blcB64decode evp (Base64.encode sig) 256 = some sig := by
    rw [blcB64decode_encode hevp, if_neg (by omega)]
  have htranscript : buildTranscript ⟨k.nonce, k.ephPub, k.share, sessionId, share⟩ k.issuedAtBd
      issued ttl =
      buildTranscript ⟨k.nonce, k.ephPub, k.share, sessionId, share⟩ day issued ttl := by
    rw [buildTranscript, buildTranscript, hday]
  have hverify : blcVerifyP256 c pub (buildTranscript ⟨k.nonce, k.ephPub, k.share, sessionId,
      share⟩ k.issuedAtBd issued ttl) sig = true := by
    rw [htranscript, blcVerifyP256, hc.head256 _ _ hpub, hc.verify _ _ _ _ hpub hsign]
    rfl
  have hsession : sessionKey c k.nonce.toList sessionId.toList k.share.toList share.toList =
      some key := hkey
  unfold acceptRegistration
  simp only [read_issued hissued, read_ttl httl, read_id hevp,
    read_envelope henv (Nat.le_add_right_of_le hlength.1), hdecodeEnv, hdec, hsession,
    read_sig hsig, hdecodeSig, need, ok_bind, Option.bind_some, exactly_toList, hverify, if_true]
  rfl

/-- The mock opens the envelope in a request and answers it. -/
theorem handleLinkRegister_eq (hevp : evp.Rfc4648) {d : BridgeDraws} {envelope : List UInt8}
    {plain : List Char} {k : Contribution} (nonce : List.Vector UInt8 16)
    (hdec : blcEciesDecrypt c m.secpPriv envelope = some (textBytes plain))
    (hlen : envelope.length < 1088) (hbytes : ∀ ch ∈ plain, Byte ch)
    (hk : contribution evp plain = some k) :
    handleLinkRegister c evp m d (objectOf (registerFields nonce.toList envelope)) =
      sealAnswer c evp m d nonce k := by
  have hcmd : Field.Plain ⟨"cmd".toList, .text "LINK_REGISTER".toList⟩ :=
    plain_text (by decide) (by decide)
  have hversion : Field.Plain ⟨"protocolVersion".toList, .bare ['1']⟩ :=
    plain_bare (by decide) (by decide) (by simp [JsonText.isWs])
  have hnonce : Field.Plain ⟨"clientNonce".toList, .text (Base64.encode nonce.toList)⟩ :=
    plain_encode (by decide) _
  have hreadNonce : mockFieldStr (objectOf (registerFields nonce.toList envelope))
      "clientNonce".toList 64 = some (Base64.encode nonce.toList) := by
    refine mockFieldStr_field (key_letters (by decide)) (encode_bland _)
      (List.forall_mem_cons.mpr ⟨hcmd, List.forall_mem_singleton.mpr hversion⟩) ?_ ?_ _
    · rw [List.forall_mem_cons, List.forall_mem_singleton]
      exact ⟨other_text (by decide) (by decide), other_bare (by decide)⟩
    · rw [Base64.length_encode, List.Vector.toList_length]
      decide
  have hreadEnv : mockFieldStr (objectOf (registerFields nonce.toList envelope))
      "envelope".toList 8192 = some (Base64.encode envelope) := by
    refine mockFieldStr_field (key_letters (by decide)) (encode_bland _)
      (List.forall_mem_cons.mpr ⟨hcmd, List.forall_mem_cons.mpr ⟨hversion,
        List.forall_mem_singleton.mpr hnonce⟩⟩) ?_ ?_ _
    · rw [List.forall_mem_cons, List.forall_mem_cons, List.forall_mem_singleton]
      exact ⟨other_text (by decide) (by decide), other_bare (by decide), other_text (by decide)
        (encode_ne (by rw [List.Vector.toList_length]; decide))⟩
    · rw [Base64.length_encode]
      omega
  have hdecode : blcB64decode evp (Base64.encode envelope) (Base64.encode envelope).length =
      some envelope := by
    rw [blcB64decode_encode hevp, if_neg (by rw [Base64.length_encode]; omega)]
  unfold handleLinkRegister
  simp only [hreadNonce, hreadEnv, decode_vector hevp, hdecode, hdec, cString_textBytes hbytes, hk,
    Option.bind_eq_bind, Option.bind_some]

end Answer

section Handshake
variable {Point S : Type} {c : Crypto Point} {evp : Evp}

/-- The private keys are valid, and the clock shows a time that is not too far away. -/
structure ClientKeys.Valid (k : ClientKeys) (c : Crypto Point) : Prop where
  eph : ∃ E, c.pubkeyCreate k.ephPriv = some E
  envelope : ∃ F, c.pubkeyCreate k.envelopePriv = some F
  now : 0 ≤ k.now ∧ k.now < 2 ^ 40

structure BridgeKeys.Valid (b : BridgeKeys) (c : Crypto Point) : Prop where
  envelope : ∃ F, c.pubkeyCreate b.envelopePriv = some F
  now : 0 ≤ b.now ∧ b.now < 2 ^ 63

theorem whole_register (nonce : List.Vector UInt8 16) {envelope : List UInt8}
    (hlen : envelope.length < 1088) : Whole (objectOf (registerFields nonce.toList envelope)) := by
  have hlength := length_register nonce envelope
  rw [Base64.length_encode] at hlength
  refine whole_objectOf ?_ (by rw [registerFields] at hlength; omega)
  simp only [List.forall_mem_cons]
  exact ⟨sendable_text (by decide) (by decide), sendable_bare (by decide) (by decide),
    sendable_encode (by decide) _, sendable_encode (by decide) _, List.forall_mem_nil _⟩

theorem identity {secpPriv p256Priv : List.Vector UInt8 32} {draws : List BridgeDraws} {m : Mock}
    (h : generateIdentity c secpPriv p256Priv draws = some m) :
    (∃ P, c.pubkeyCreate m.secpPriv = some P ∧ m.secpPub65 = c.serialize65 P ∧
      c.p256Pub m.p256Priv = some m.p256Pub65 ∧ m.draws = draws) ∧ m.unread = [] := by
  simp only [generateIdentity, Option.bind_eq_bind, Option.bind_eq_some_iff] at h
  obtain ⟨secpPub65, hsecp, p256Pub65, hp256, hm⟩ := h
  obtain rfl := Option.some.inj hm
  obtain ⟨P, hP, rfl⟩ := Option.map_eq_some_iff.mp hsecp
  exact ⟨⟨P, hP, rfl, hp256, rfl⟩, rfl⟩

theorem other_answer {sessionId envelope sig : List UInt8} {issued ttl : ℤ} :
    ∀ f ∈ answerFields sessionId envelope sig issued ttl, f.Other "error".toList := by
  have htext : ∀ bs, Base64.encode bs ≠ "error".toList := fun bs => encode_length_ne (by decide)
  simp only [answerFields, List.forall_mem_cons]
  exact ⟨other_bare (by decide), other_text (by decide) (htext _), other_bare (by decide),
    other_bare (by decide), other_text (by decide) (htext _), other_text (by decide) (htext _),
    List.forall_mem_nil _⟩

/-- The exchange that makes a session. -/
theorem exchange_mock (hc : c.Lawful) (ht : Total c) (hevp : evp.Rfc4648) {w : World Mock S}
    (hw : Linked w) (hclient : Ready w.client) {secpPriv p256Priv : List.Vector UInt8 32}
    {k : ClientKeys} (hk : k.Valid c) {b : BridgeKeys} (hb : b.Valid c) {draws : List BridgeDraws}
    (hmock : generateIdentity c secpPriv p256Priv (b.draws :: draws) = some w.bridge) :
    ∃ key, sessionKey c k.nonce.toList b.sessionId.toList k.share.toList b.share.toList =
        some key ∧
      exchange c evp (mockBridge c evp) k.draws w w.bridge.secpPub65 w.bridge.p256Pub65 =
        ({ w with client := { w.client with fd := some [] }
                  bridge := { w.bridge with draws := draws, unread := [] } },
          .ok ⟨b.sessionId, key⟩) := by
  obtain ⟨⟨P, hP, hsecp, hp256, hdraws⟩, -⟩ := identity hmock
  obtain ⟨E, hE⟩ := hk.eph
  obtain ⟨F, hF⟩ := hk.envelope
  obtain ⟨G, hG⟩ := hb.envelope
  obtain ⟨envelope, hrequest, hdec, hlen⟩ := exists_request hc ht hevp hclient hP hE hF hk.now
  obtain ⟨day, hcontribution, hday⟩ := contribution_plain hevp hclient E hk.now
  have httl : 1 ≤ min w.client.ttlSeconds 3600 ∧ min w.client.ttlSeconds 3600 ≤ 3600 := by
    have hrange := hclient.ttl
    omega
  obtain ⟨envelope', sig, hseal, hdec', henv', hsign, hsig⟩ := exists_answer hc ht hevp hp256 hE hG
    hb.now k.nonce ⟨c.serialize65 E, k.share, day, min w.client.ttlSeconds 3600⟩ rfl httl
  have hissued : issuedAtUnix (k.material c E).issuedAtBd = k.now :=
    issued_client hk.now.1 hk.now.2
  obtain ⟨key, hkey, haccept⟩ := accept_answer hc ht hevp hp256 (k.material c E)
    hdec' hsign henv' hsig (hday.trans hissued.symm) hb.now httl
  have hlength := length_answer b.sessionId.toList_length henv' hsig hb.now httl
  have hhandle : handle c evp w.bridge (objectOf (registerFields k.nonce.toList envelope)) =
      ({ w.bridge with draws := draws }, some (objectOf (answerFields b.sessionId.toList envelope'
        sig b.now (min w.client.ttlSeconds 3600)))) := by
    rw [handle_register hdraws, handleLinkRegister_eq hevp k.nonce hdec hlen (plain_byte hclient _)
      hcontribution, hseal]
  have hsend := send_mock c evp hw (whole_register k.nonce hlen) hhandle (whole_answer hlength.2)
  have herror : captureBridgeError (objectOf (answerFields b.sessionId.toList envelope' sig b.now
      (min w.client.ttlSeconds 3600))) = none := captureBridgeError_none plain_answer other_answer
  refine ⟨key, hkey, ?_⟩
  unfold exchange
  simp only [hsecp, hrequest, hsend, herror, haccept]

/-- What the constructor makes of its configuration can be sent. -/
theorem ready_new {cfg : Config} {env : Environment} {client : Client}
    (hnew : blClientNew cfg env = some client)
    (hname : ∀ ch ∈ cfg.agentName.getD [], Byte ch)
    (hversion : ∀ ch ∈ cfg.agentVersion.getD [], Byte ch) : Ready client := by
  obtain ⟨socket, -, rfl⟩ := Option.map_eq_some_iff.mp hnew
  have hgiven : ∀ {text : Option (List Char)} {default : List Char},
      (∀ ch ∈ text.getD [], Byte ch) → (∀ ch ∈ default, Byte ch) →
        ∀ ch ∈ given text default, Byte ch := by
    intro text default htext hdefault
    unfold given
    split_ifs
    · exact hdefault
    · exact htext
  have hcut : ∀ text : List Char, (PinPath.snprintf 64 text).1.length ≤ 63 := fun text =>
    List.length_take_le 63 text
  exact
    { name := hcut _
      version := hcut _
      ttl := by dsimp only; split_ifs <;> omega
      bytes := ⟨fun ch hch => hgiven hname (by decide) ch (List.mem_of_mem_take hch),
        fun ch hch => hgiven hversion (by decide) ch (List.mem_of_mem_take hch)⟩ }

/-- What a session leaves behind if the key is the pin, or there is none. -/
theorem commit_pinFirst (store : PinStore S) {w : World Mock S} {pub : List.Vector UInt8 65}
    (hpin : w.client.pin = none ∨ w.client.pin = some pub) (s : Session) :
    (commit (pinFirst store w pub) s).client =
        { w.client with session := some s, pin := some pub } ∧
      (commit (pinFirst store w pub) s).bridge = w.bridge ∧
      (commit (pinFirst store w pub) s).store =
        if w.client.pin = none then (store.save w.store pub).1 else w.store := by
  obtain ⟨⟨path, name, version, ttl, fd, session, pin, err⟩, bridge, st⟩ := w
  rcases hpin with hpin | hpin
  · obtain rfl : pin = none := hpin
    exact ⟨rfl, rfl, rfl⟩
  · obtain rfl : pin = some pub := hpin
    exact ⟨rfl, rfl, rfl⟩

/-- A registration with the mock, whatever is drawn: both derive the same key from what both
have drawn, and the key of the mock is the pin. -/
theorem register_mock (hc : c.Lawful) (ht : Total c) (hevp : evp.Rfc4648) {w : World Mock S}
    {store : PinStore S} (hw : Linked w) (hclient : Ready w.client)
    (hsession : w.client.session = none)
    (hpin : pinNow store true w = none ∨ pinNow store true w = some w.bridge.p256Pub65)
    {secpPriv p256Priv : List.Vector UInt8 32} {k : ClientKeys} (hk : k.Valid c) {b : BridgeKeys}
    (hb : b.Valid c) {draws : List BridgeDraws}
    (hmock : generateIdentity c secpPriv p256Priv (b.draws :: draws) = some w.bridge) :
    ∃ key, sessionKey c k.nonce.toList b.sessionId.toList k.share.toList b.share.toList =
        some key ∧
      let r := blRegister c evp (mockBridge c evp) store k.draws w
      r.2 = none ∧ r.1.client.session = some ⟨b.sessionId, key⟩ ∧
        r.1.client.pin = some w.bridge.p256Pub65 ∧ Linked r.1 ∧
        r.1.bridge = { w.bridge with draws := draws, unread := [] } ∧
        r.1.store = if pinNow store true w = none then (store.save w.store w.bridge.p256Pub65).1
          else w.store := by
  obtain ⟨⟨P, hP, hsecp, hp256, hdraws⟩, -⟩ := identity hmock
  have hactive : ¬ w.client.session.isSome = true := by simp [hsession]
  have hreads : k.draws.storeReads = true := rfl
  have hfirst := fetch_mock (c := c) (w := { w with client := { w.client with
    pin := pinNow store true w, lastBridgeError := none } }) hevp ⟨hw.fd, hw.unread⟩
    (hsecp ▸ hc.head65 P) (whole_command (by decide)) (handle_getPublicKey w.bridge)
  have hsecond := fetch_mock (c := c) (w := { w with client := { w.client with
    pin := pinNow store true w, lastBridgeError := none, fd := some [] } }) hevp ⟨Or.inl rfl, hw.unread⟩
    (hc.head256 _ _ hp256) (whole_command (by decide)) (handle_getEnclavePublicKey w.bridge)
  obtain ⟨key, hkey, hexchange⟩ := exchange_mock (w := { w with client := { w.client with
    pin := pinNow store true w, lastBridgeError := none, fd := some [] } }) hc ht hevp
    ⟨Or.inl rfl, hw.unread⟩ ⟨hclient.name, hclient.version, hclient.ttl, hclient.bytes⟩ hk hb hmock
  refine ⟨key, hkey, ?_⟩
  have hmatch : ¬ (pinNow store true w ≠ none ∧ pinNow store true w ≠ some w.bridge.p256Pub65) := by tauto
  unfold blRegister
  simp only [if_neg hactive, hreads, loadPin_eq, hfirst, hsecond, if_neg hmatch, hexchange]
  obtain ⟨hcommitted, hbridge, hstore⟩ := commit_pinFirst (w := { w with
    client := { w.client with pin := pinNow store true w, lastBridgeError := none, fd := some [] }
    bridge := { w.bridge with draws := draws, unread := [] } }) store hpin ⟨b.sessionId, key⟩
  exact ⟨trivial, by rw [hcommitted], by rw [hcommitted],
    ⟨Or.inl (by rw [hcommitted]), by rw [hbridge]⟩, hbridge, hstore⟩

end Handshake

section Position
variable {Point S D : Type} {c : Crypto Point} {evp : Evp} {doubles : GeoLookup.Doubles D}

theorem whole_geoFixture : Whole geoFixture := by
  have hwgs84 : Sendable ⟨"wgs84".toList, .bare (objectOf
      [⟨"lat".toList, .bare "37.7749".toList⟩, ⟨"lon".toList, .bare "-122.4194".toList⟩,
        ⟨"alt_m".toList, .bare "100.0".toList⟩])⟩ := by
    refine sendable_object (by decide) ?_
    simp only [List.forall_mem_cons]
    exact ⟨sendable_bare (by decide) (by decide), sendable_bare (by decide) (by decide),
      sendable_bare (by decide) (by decide), List.forall_mem_nil _⟩
  have hbrightspace : Sendable ⟨"brightspace".toList, .bare (objectOf
      [⟨"x_bm".toList, .bare "-0.009044".toList⟩, ⟨"y_bm".toList, .bare "-0.014210".toList⟩,
        ⟨"z_bm".toList, .bare "0.012970".toList⟩,
        ⟨"epoch_bd".toList, .bare "9638.521".toList⟩])⟩ := by
    refine sendable_object (by decide) ?_
    simp only [List.forall_mem_cons]
    exact ⟨sendable_bare (by decide) (by decide), sendable_bare (by decide) (by decide),
      sendable_bare (by decide) (by decide), sendable_bare (by decide) (by decide),
      List.forall_mem_nil _⟩
  have hposition := sendable_object (k := "position".toList) (by decide)
    (List.forall_mem_cons.mpr ⟨hwgs84, List.forall_mem_singleton.mpr hbrightspace⟩)
  refine whole_objectOf ?_ (by decide +kernel)
  simp only [List.forall_mem_cons]
  exact ⟨sendable_ok, hposition, sendable_bare (by decide) (by decide),
    sendable_bare (by decide) (by decide), List.forall_mem_nil _⟩

theorem handle_geo (m : Mock) (format : BlGeoFormat) :
    handle c evp m (geoJson format) = (m, some geoFixture) := by
  have hcommands : strstr "GET_PUBLIC_KEY".toList (geoJson format) = none ∧
      strstr "GET_ENCLAVE_PUBLIC_KEY".toList (geoJson format) = none ∧
      strstr "LINK_REGISTER".toList (geoJson format) = none ∧
      strstr "LINK_GEO_GET".toList (geoJson format) ≠ none := by
    cases format <;> decide +kernel
  obtain ⟨hpublic, henclave, hregister, hgeo⟩ := hcommands
  unfold handle
  rw [if_neg fun h => h.1 hpublic, if_neg fun h => h henclave, if_neg fun h => h hregister,
    if_pos hgeo]

theorem whole_geoJson (format : BlGeoFormat) : Whole (geoJson format) := by
  refine whole_objectOf ?_ (by cases format <;> decide +kernel)
  rw [List.forall_mem_cons, List.forall_mem_singleton]
  refine ⟨sendable_text (by decide) (by decide), sendable_text (by decide) ?_⟩
  cases format <;> decide

theorem have_geoFixture (doubles : GeoLookup.Doubles D) :
    (positionOf doubles geoFixture).haveWgs84 = true ∧
    (positionOf doubles geoFixture).haveBrightspace = true := by
  have hfield : ∀ key ∈ ["lat", "lon", "x_bm", "y_bm", "z_bm"],
      (jsonFieldDouble doubles geoFixture key.toList).isSome = true := by
    have htext : ∀ key ∈ ["lat", "lon", "x_bm", "y_bm", "z_bm"],
        ((jsonLocate geoFixture key.toList).bind fun p =>
          NumeralText.strtodItem (p.dropWhile isSpace)).isSome = true := by
      decide +kernel
    intro key hkey
    have hsome := htext key hkey
    rw [Option.isSome_bind] at hsome
    unfold jsonFieldDouble
    rw [Option.isSome_bind]
    simpa using hsome
  simp only [List.forall_mem_cons] at hfield
  obtain ⟨hlat, hlon, hx, hy, hz, -⟩ := hfield
  unfold positionOf
  simp only [hlat, hlon, hx, hy, hz, if_true, and_self]

theorem geoExchange_mock (c : Crypto Point) (evp : Evp) (doubles : GeoLookup.Doubles D)
    {w : World Mock S} (hw : Linked w) (format : BlGeoFormat) :
    ∃ w', geoExchange doubles (mockBridge c evp) format w =
      (w', .ok (positionOf doubles geoFixture)) ∧ Linked w' := by
  have hsend := send_mock c evp hw (whole_geoJson format) (handle_geo w.bridge format)
    whole_geoFixture
  have herror : captureBridgeError geoFixture = none := by decide +kernel
  have hok : ¬ strstr "\"ok\":true".toList geoFixture = none := by decide +kernel
  obtain ⟨hwgs84, -⟩ := have_geoFixture doubles
  have hexchange : geoExchange doubles (mockBridge c evp) format w =
      ({ w with client := { w.client with fd := some [] }
                bridge := { w.bridge with unread := [] } },
        .ok (positionOf doubles geoFixture)) := by
    unfold geoExchange
    simp only [hsend, herror, hok, hwgs84, if_false, Bool.not_true, Bool.false_and]
    rfl
  exact ⟨_, hexchange, Or.inl rfl, rfl⟩

/-- What the calls of `bl_geo_get` return, one after the other. -/
def positions (doubles : GeoLookup.Doubles D) (c : Crypto Point) (evp : Evp)
    (store : PinStore S) : World Mock S → List (Draws × BlGeoFormat) →
      List (Except BlStatus (BlGeoPosition D))
  | _, [] => []
  | w, call :: calls =>
      let r := blGeoGet doubles c evp (mockBridge c evp) store call.1 call.2 w
      r.2 :: positions doubles c evp store r.1 calls

/-- With a session every call gets a position. -/
theorem positions_active {w : World Mock S} {store : PinStore S} (hw : Linked w)
    (hs : w.client.session.isSome = true) (calls : List (Draws × BlGeoFormat)) :
    ∀ r ∈ positions doubles c evp store w calls, r = .ok (positionOf doubles geoFixture) := by
  induction calls generalizing w with
  | nil => exact List.forall_mem_nil _
  | cons call calls ih =>
      obtain ⟨draws, format⟩ := call
      have hw₀ : Linked (blClearBridgeError w) := ⟨hw.fd, hw.unread⟩
      have hs₀ : (blClearBridgeError w).client.session.isSome = true := hs
      obtain ⟨w', hgeo, hw'⟩ := geoExchange_mock c evp doubles hw₀ format
      have hcall : blGeoGet doubles c evp (mockBridge c evp) store draws format w =
          (w', .ok (positionOf doubles geoFixture)) := by
        simp only [blGeoGet, hs₀, if_true, hgeo]
      have htrust := trust_geoExchange (mockBridge c evp) doubles format
        (blClearBridgeError w)
      rw [hgeo] at htrust
      have hs' : w'.client.session.isSome = true := by
        rw [(trust_values htrust).2.1]
        exact hs₀
      rw [positions, List.forall_mem_cons, hcall]
      exact ⟨rfl, ih hw' hs'⟩

/-- A new client gets a position from the mock at the first call and at every later one. Its
session has the key that both parties derive from what they have drawn, and its pin is the
key of the mock. -/
theorem served (hc : c.Lawful) (ht : Total c) (hevp : evp.Rfc4648) {w : World Mock S}
    {store : PinStore S} {cfg : Config} {env : Environment}
    (hnew : blClientNew cfg env = some w.client)
    (hname : ∀ ch ∈ cfg.agentName.getD [], Byte ch)
    (hversion : ∀ ch ∈ cfg.agentVersion.getD [], Byte ch)
    (hpath : w.client.socketPath.length < 108) {secpPriv p256Priv : List.Vector UInt8 32}
    {k : ClientKeys} (hk : k.Valid c) {b : BridgeKeys} (hb : b.Valid c) {draws : List BridgeDraws}
    (hmock : generateIdentity c secpPriv p256Priv (b.draws :: draws) = some w.bridge)
    (hpin : store.load w.store = none ∨ store.load w.store = some w.bridge.p256Pub65)
    (format : BlGeoFormat) (calls : List (Draws × BlGeoFormat)) :
    ∃ key, sessionKey c k.nonce.toList b.sessionId.toList k.share.toList b.share.toList =
        some key ∧
      let w' := (blGeoGet doubles c evp (mockBridge c evp) store k.draws format w).1
      w'.client.session = some ⟨b.sessionId, key⟩ ∧ w'.client.pin = some w.bridge.p256Pub65 ∧
        ∀ r ∈ positions doubles c evp store w ((k.draws, format) :: calls),
          r = .ok (positionOf doubles geoFixture) := by
  have hfresh : Fresh w.client := ⟨cfg, env, hnew⟩
  obtain ⟨hnone, hsession, -⟩ := trust_values hfresh.trust
  have hfd : w.client.fd = none := by
    obtain ⟨socket, -, hclient⟩ := Option.map_eq_some_iff.mp hnew
    rw [← hclient]
  have hunread : w.bridge.unread = [] := (identity hmock).2
  have hready := ready_new hnew hname hversion
  let w₀ := blClearBridgeError w
  have hnow : pinNow store true w₀ = none ∨ pinNow store true w₀ = some w.bridge.p256Pub65 := by
    have hload : pinNow store true w₀ = store.load w.store := by
      change w.client.pin.or (store.load w.store) = _
      rw [hnone]
      rfl
    rw [hload]
    exact hpin
  obtain ⟨key, hkey, hok, hsession', hpin', hlinked, -⟩ := register_mock (w := w₀) hc ht hevp
    ⟨Or.inr ⟨hfd, hpath⟩, hunread⟩ ⟨hready.name, hready.version, hready.ttl, hready.bytes⟩ hsession
    hnow hk hb hmock
  obtain ⟨w₁, hregister⟩ : ∃ w₁, blRegister c evp (mockBridge c evp) store k.draws w₀ =
      (w₁, none) := ⟨_, Prod.ext rfl hok⟩
  rw [hregister] at hsession' hpin' hlinked
  obtain ⟨w₂, hgeo, hlinked₂⟩ := geoExchange_mock c evp doubles hlinked format
  have hcall : blGeoGet doubles c evp (mockBridge c evp) store k.draws format w =
      (w₂, .ok (positionOf doubles geoFixture)) := by
    have hinactive : ¬ w₀.client.session.isSome = true := by
      change ¬ w.client.session.isSome = true
      simp [hsession]
    unfold blGeoGet
    simp only [show blClearBridgeError w = w₀ from rfl, if_neg hinactive, hregister, hgeo]
  have htrust := trust_geoExchange (mockBridge c evp) doubles format w₁
  rw [hgeo] at htrust
  obtain ⟨hpin₂, hsession₂, -⟩ := trust_values htrust
  rw [hpin'] at hpin₂
  rw [hsession'] at hsession₂
  refine ⟨key, hkey, by rw [hcall]; exact hsession₂, by rw [hcall]; exact hpin₂, ?_⟩
  rw [positions, List.forall_mem_cons, hcall]
  exact ⟨rfl, positions_active hlinked₂ (by rw [hsession₂]; rfl) calls⟩

theorem total_openCrypto : Total openCrypto where
  ecdh _ _ _ _ := ⟨_, rfl⟩
  hkdf _ _ _ := ⟨_, rfl⟩
  encrypt _ _ _ _ := ⟨_, _, rfl, rfl⟩
  sign _ _ _ _ := ⟨_, rfl, by rw [List.Vector.toList_length]; decide⟩

def sampleKeys : ClientKeys :=
  ⟨fixed 16 [1], fixed 32 [2], fixed 32 [3], fixed 32 [4], fixed 12 [5], 1700000000⟩

def sampleBridgeKeys : BridgeKeys :=
  ⟨fixed 16 [6], fixed 32 [7], fixed 32 [8], fixed 12 [9], 1700000001⟩

def sampleMock : Mock where
  secpPriv := fixed 32 [10]
  secpPub65 := openCrypto.serialize65 (fixed 32 [10])
  p256Priv := fixed 32 [11]
  p256Pub65 := fixed 65 (0x04 :: (fixed 32 [11]).toList)
  draws := [sampleBridgeKeys.draws]

theorem served_sample : ∃ key, sessionKey openCrypto sampleKeys.nonce.toList
      sampleBridgeKeys.sessionId.toList sampleKeys.share.toList sampleBridgeKeys.share.toList =
        some key ∧
    let w : World Mock (Option (List.Vector UInt8 65)) := ⟨sampleClient, sampleMock, none⟩
    let w' := (blGeoGet sampleDoubles openCrypto plainEvp (mockBridge openCrypto plainEvp)
      blPinStoreMemory sampleKeys.draws .both w).1
    w'.client.session = some ⟨sampleBridgeKeys.sessionId, key⟩ ∧
      w'.client.pin = some w.bridge.p256Pub65 ∧
      ∀ r ∈ positions sampleDoubles openCrypto plainEvp blPinStoreMemory w
        ((sampleKeys.draws, .both) :: [(sampleKeys.draws, .wgs84)]),
          r = .ok (positionOf sampleDoubles geoFixture) :=
  served lawful_openCrypto total_openCrypto rfc4648_plainEvp
    (show blClientNew sampleConfig default = some sampleClient from rfl) (by decide) (by decide)
    (by decide) ⟨⟨_, rfl⟩, ⟨_, rfl⟩, by decide⟩ ⟨⟨_, rfl⟩, by decide⟩ rfl (Or.inl rfl) _ _

end Position

section Samples

/-- A store in memory, and a mock that can serve two processes. -/
def sampleWorld (pinned : Option (List.Vector UInt8 65)) :
    World Mock (Option (List.Vector UInt8 65)) where
  client := sampleClient
  bridge := { sampleMock with draws := [sampleBridgeKeys.draws, sampleBridgeKeys.draws] }
  store := pinned

def sampleRun (pinned : Option (List.Vector UInt8 65)) (calls : List Call) :
    World Mock (Option (List.Vector UInt8 65)) :=
  run openCrypto plainEvp (mockBridge openCrypto plainEvp) blPinStoreMemory sampleDoubles
    (sampleWorld pinned) calls

/-- Two processes that register, one after the other. -/
def twoProcesses : List Call :=
  [.register sampleKeys.draws, .renew sampleConfig default, .register sampleKeys.draws]

theorem register_sample {draws : List BridgeDraws}
    {w : World Mock (Option (List.Vector UInt8 65))} (hclient : w.client = sampleClient)
    (hbridge : w.bridge = { sampleMock with draws := sampleBridgeKeys.draws :: draws })
    (hstore : w.store = none ∨ w.store = some sampleMock.p256Pub65) :
    let w' := (blRegister openCrypto plainEvp (mockBridge openCrypto plainEvp) blPinStoreMemory
      sampleKeys.draws w).1
    w'.client.session.isSome = true ∧ w'.bridge = { sampleMock with draws := draws } ∧
      w'.store = some sampleMock.p256Pub65 := by
  have hready : Ready sampleClient := ⟨by decide, by decide, by decide, by decide, by decide⟩
  have hlinked : Linked w :=
    ⟨Or.inr ⟨by rw [hclient]; rfl, by rw [hclient]; decide⟩, by rw [hbridge]; rfl⟩
  have hpin : pinNow blPinStoreMemory true w = w.store := by
    rw [pinNow, hclient]
    rfl
  have hpub : w.bridge.p256Pub65 = sampleMock.p256Pub65 := by rw [hbridge]
  have hkeys : sampleKeys.Valid openCrypto := ⟨⟨_, rfl⟩, ⟨_, rfl⟩, by decide⟩
  have hbridgeKeys : sampleBridgeKeys.Valid openCrypto := ⟨⟨_, rfl⟩, by decide⟩
  have hmock : generateIdentity openCrypto (fixed 32 [10]) (fixed 32 [11])
      (sampleBridgeKeys.draws :: draws) = some w.bridge := by
    rw [hbridge]
    rfl
  obtain ⟨key, -, -, hsession, -, -, hbridge', hstore'⟩ := register_mock lawful_openCrypto
    total_openCrypto rfc4648_plainEvp hlinked (hclient ▸ hready) (by rw [hclient]; rfl)
    (by rw [hpin, hpub]; exact hstore) hkeys hbridgeKeys hmock
  refine ⟨by rw [hsession]; rfl, by rw [hbridge', hbridge]; rfl, ?_⟩
  rw [hstore', hpin, hpub]
  rcases hstore with hstore | hstore
  · rw [if_pos hstore]
    rfl
  · rw [if_neg (by simp [hstore]), hstore]

/-- Both processes get a session. -/
theorem sessions_sample {pinned : Option (List.Vector UInt8 65)}
    (h : pinned = none ∨ pinned = some sampleMock.p256Pub65) :
    (sampleRun pinned [.register sampleKeys.draws]).client.session.isSome = true ∧
      (sampleRun pinned twoProcesses).client.session.isSome = true := by
  have hfirst := register_sample (w := sampleWorld pinned) rfl rfl h
  have hnew : blClientNew sampleConfig default = some sampleClient := rfl
  simp only [sampleRun, twoProcesses, run, List.foldl_cons, List.foldl_nil, step, hnew]
  generalize (blRegister openCrypto plainEvp (mockBridge openCrypto plainEvp) blPinStoreMemory
    sampleKeys.draws (sampleWorld pinned)).1 = w₁ at hfirst
  obtain ⟨hsession, hbridge, hstore⟩ := hfirst
  exact ⟨hsession, (register_sample (w := { w₁ with client := sampleClient }) rfl hbridge
    (Or.inr hstore)).1⟩

theorem sessions_signed_sample :
    (sampleRun none twoProcesses).client.session.isSome = true ∧
      Signed openCrypto (drawn twoProcesses) (sampleRun none twoProcesses) :=
  ⟨(sessions_sample (Or.inl rfl)).2, sessions_signed _ fresh_sampleClient _⟩

theorem reads_twoProcesses : Reads (drawn twoProcesses) := by
  have hdrawn : drawn twoProcesses = [sampleKeys.draws, sampleKeys.draws] := rfl
  rw [hdrawn, Reads, List.forall_mem_cons, List.forall_mem_singleton]
  exact ⟨rfl, rfl⟩

theorem pin_continuity_sample :
    (sampleRun (some sampleMock.p256Pub65) twoProcesses).client.session.isSome = true ∧
    let w' := sampleRun (some sampleMock.p256Pub65) twoProcesses
    w'.store = some sampleMock.p256Pub65 ∧
      (w'.client.pin = none ∨ w'.client.pin = some sampleMock.p256Pub65) ∧
      ∀ s, w'.client.session = some s →
        ∃ d ∈ drawn twoProcesses, Genuine openCrypto d sampleMock.p256Pub65 s := by
  refine ⟨(sessions_sample (Or.inr rfl)).2, ?_⟩
  unfold sampleRun
  exact pin_continuity _ fresh_sampleClient _ rfl _ reads_twoProcesses

theorem one_key_sample :
    (sampleRun none [.register sampleKeys.draws]).client.session.isSome = true ∧
    (sampleRun none twoProcesses).client.session.isSome = true ∧
    ∃ k, ∀ first, first <+: twoProcesses → ∀ s, (sampleRun none first).client.session = some s →
      ∃ d ∈ drawn twoProcesses, Genuine openCrypto d k s := by
  obtain ⟨hfirst, hsecond⟩ := sessions_sample (Or.inl rfl)
  exact ⟨hfirst, hsecond, one_key keeps_memory _ fresh_sampleClient _ reads_twoProcesses⟩

def activeWorld : World (Mock × List (List Char)) (Option (List.Vector UInt8 65)) where
  client := { sampleClient with
    session := some ⟨fixed 16 [6], []⟩, pin := some sampleMock.p256Pub65 }
  bridge := (sampleMock, [])
  store := some sampleMock.p256Pub65

/-- Two requests are sent, and the attempt to register sends none. -/
theorem quiet_session_sample :
    let calls := [Call.geoGet sampleKeys.draws .both, .register sampleKeys.draws,
      .geoGet sampleKeys.draws .wgs84]
    let w' := run openCrypto plainEvp (logged (mockBridge openCrypto plainEvp)) blPinStoreMemory
      sampleDoubles activeWorld calls
    sent w' = [geoJson .both, geoJson .wgs84] ∧ trust w' = trust activeWorld ∧
      ∃ formats : List BlGeoFormat, sent w' = sent activeWorld ++ formats.map geoJson :=
  ⟨by decide +kernel, quiet_session _ rfl _ (by simp [Call.draws])⟩

end Samples

end Iputils.Handshake
