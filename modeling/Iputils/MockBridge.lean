import Iputils.LinkClient

/-!
# A bridge for tests

`mock-brightnexus` answers the four commands that the client uses. It reads objects from
the connection as the client does, looks for the name of a command anywhere in them, and
for `LINK_REGISTER` opens the envelope, signs the transcript and seals its own share for the
client. Its copy of a string field knows no escapes.
-/
set_option autoImplicit false

namespace Iputils.MockBridge
open BraceFraming BridgeFields BridgeBytes EciesEnvelope LinkTranscript LinkClient PrintfText
open ScanText QuotedWords

section Code

/-- The random numbers for one answer, each of which can fail, and `time(NULL)`. -/
structure BridgeDraws where
  sessionId : Option (List.Vector UInt8 16)
  bridgeShare : Option (List.Vector UInt8 32)
  envelopePriv : Option (List.Vector UInt8 32)
  envelopeIv : Option (List.Vector UInt8 12)
  now : ℤ

/-- The keys, the bytes of the connection that have not been read, and what will be drawn. -/
structure Mock where
  secpPriv : List.Vector UInt8 32
  secpPub65 : List.Vector UInt8 65
  p256Priv : List.Vector UInt8 32
  p256Pub65 : List.Vector UInt8 65
  unread : List Recv := []
  draws : List BridgeDraws

/-- `json_field_str` of the mock. -/
def mockFieldStr (json key : List Char) (cap : ℕ) : Option (List Char) :=
  match jsonLocate json key with
  | some ('"' :: p) =>
      let out := (p.takeWhile fun c => c ≠ '"').take (cap - 1)
      if (p.drop out.length).head? = some '"' then some out else none
  | _ => none

variable {Point : Type} (c : Crypto Point) (evp : Evp)

/-- `generate_identity`; the private keys are drawn, and the libraries find the public keys. -/
def generateIdentity (secpPriv p256Priv : List.Vector UInt8 32) (draws : List BridgeDraws) :
    Option Mock := do
  let secpPub65 ← blcSecpPubUncompressed c secpPriv
  let p256Pub65 ← c.p256Pub p256Priv
  some { secpPriv, secpPub65, p256Priv, p256Pub65, draws }

/-- `handle_get_public_key` and `handle_get_enclave_public_key`, each for its key. -/
def handleGetPublicKey (pub65 : List.Vector UInt8 65) : List Char :=
  let pubB64 := (blcB64encode evp pub65.toList 128).getD []
  objectOf [⟨"ok".toList, .bare "true".toList⟩, ⟨"publicKey".toList, .text pubB64⟩]

/-- `blc_sign_p256` with room for 256 bytes. -/
def blcSignP256 (priv : List.Vector UInt8 32) (msg : List UInt8) : Option (List UInt8) :=
  (c.p256Sign priv msg).filter fun sig => sig.length ≤ 256

/-- The limits that the mock puts on a time to live. -/
def grantedTtl (requested : ℤ) : ℤ :=
  let ttl := if requested < 1 then 1 else requested
  if ttl > 3600 then 3600 else ttl

def registerAnswer (sidB64 envB64 sigB64 : List Char) (issued ttl : ℤ) : List Char :=
  objectOf [⟨"ok".toList, .bare "true".toList⟩, ⟨"sessionId".toList, .text sidB64⟩,
    ⟨"bridgeIssuedAtUnix".toList, .bare (decText issued)⟩,
    ⟨"ttlSeconds".toList, .bare (decText ttl)⟩, ⟨"responseEnvelope".toList, .text envB64⟩,
    ⟨"transcriptSig".toList, .text sigB64⟩]

example : registerAnswer "S".toList "E".toList "T".toList 17 3600 =
    ("\x7b\"ok\":true,\"sessionId\":\"S\",\"bridgeIssuedAtUnix\":17,\"ttlSeconds\":3600," ++
      "\"responseEnvelope\":\"E\",\"transcriptSig\":\"T\"\x7d").toList := by decide +kernel

/-- What the client has put into its envelope. -/
structure Contribution where
  pub65 : List.Vector UInt8 65
  share : List.Vector UInt8 32
  issuedAtBd : ℚ
  ttl : ℤ

/-- The fields of the decrypted text. -/
def contribution (ptStr : List Char) : Option Contribution := do
  let pubB64 ← mockFieldStr ptStr "clientPub".toList 256
  let shareB64 ← mockFieldStr ptStr "clientShare".toList 64
  let pIss ← jsonLocate ptStr "issuedAtBd".toList
  let pTtl ← jsonLocate ptStr "ttlSeconds".toList
  let pub65 ← (blcB64decode evp pubB64 65).bind (exactly 65)
  let share ← (blcB64decode evp shareB64 32).bind (exactly 32)
  some ⟨pub65, share, strtod pIss, grantedTtl (IntegerText.strtol .ten pTtl).1⟩

/-- From what the client has sent to the answer. -/
def sealAnswer (m : Mock) (d : BridgeDraws) (nonce : List.Vector UInt8 16) (k : Contribution) :
    Option (List Char) := do
  let sessionId ← d.sessionId
  let bridgeShare ← d.bridgeShare
  let transcript :=
    buildTranscript ⟨nonce, k.pub65, k.share, sessionId, bridgeShare⟩ k.issuedAtBd d.now k.ttl
  let sig ← blcSignP256 c m.p256Priv transcript
  let envelope ←
    blcEciesEncrypt c k.pub65.toList bridgeShare.toList d.envelopePriv d.envelopeIv
  let sidB64 := (blcB64encode evp sessionId.toList 32).getD []
  let sigB64 := (blcB64encode evp sig 1024).getD []
  let envB64 := (blcB64encode evp envelope 2048).getD []
  let resp := registerAnswer sidB64 envB64 sigB64 d.now k.ttl
  if resp.length ≥ 4096 then none else some resp

/-- `handle_link_register` -/
def handleLinkRegister (m : Mock) (d : BridgeDraws) (req : List Char) : Option (List Char) := do
  let nonceB64 ← mockFieldStr req "clientNonce".toList 64
  let nonce ← (blcB64decode evp nonceB64 16).bind (exactly 16)
  let envB64 ← mockFieldStr req "envelope".toList 8192
  let envelope ← blcB64decode evp envB64 envB64.length
  let plaintext ← blcEciesDecrypt c m.secpPriv envelope
  let k ← contribution evp (cString (GeoLookup.byteText plaintext))
  sealAnswer c evp m d nonce k

def geoFixture : List Char :=
  objectOf [⟨"ok".toList, .bare "true".toList⟩,
    ⟨"position".toList, .bare (objectOf
      [⟨"wgs84".toList, .bare (objectOf [⟨"lat".toList, .bare "37.7749".toList⟩,
        ⟨"lon".toList, .bare "-122.4194".toList⟩, ⟨"alt_m".toList, .bare "100.0".toList⟩])⟩,
      ⟨"brightspace".toList, .bare (objectOf [⟨"x_bm".toList, .bare "-0.009044".toList⟩,
        ⟨"y_bm".toList, .bare "-0.014210".toList⟩, ⟨"z_bm".toList, .bare "0.012970".toList⟩,
        ⟨"epoch_bd".toList, .bare "9638.521".toList⟩])⟩])⟩,
    ⟨"accuracy_m".toList, .bare "15.0".toList⟩, ⟨"brightdate".toList, .bare "9638.521".toList⟩]

/-- One round of `serve_connection`; without an answer the connection is closed. -/
def handle (m : Mock) (buf : List Char) : Mock × Option (List Char) :=
  if strstr "GET_PUBLIC_KEY".toList buf ≠ none ∧ strstr "ENCLAVE".toList buf = none then
    (m, some (handleGetPublicKey evp m.secpPub65))
  else if strstr "GET_ENCLAVE_PUBLIC_KEY".toList buf ≠ none then
    (m, some (handleGetPublicKey evp m.p256Pub65))
  else if strstr "LINK_REGISTER".toList buf ≠ none then
    match m.draws with
    | [] => (m, none)
    | d :: draws => ({ m with draws := draws }, handleLinkRegister c evp m d buf)
  else if strstr "LINK_GEO_GET".toList buf ≠ none then (m, some geoFixture)
  else
    (m, some (objectOf [⟨"ok".toList, .bare "false".toList⟩,
      ⟨"error".toList, .text "Unknown command".toList⟩]))

/-- `serve_connection` until it has to wait for more bytes; every object takes one of them at
least. -/
def serveConnection : ℕ → Mock → List Recv → Mock × List Recv
  | 0, m, arriving => ({ m with unread := arriving }, [])
  | fuel + 1, m, arriving =>
      match readUntilBrace (16 * 1024) arriving with
      | .object text pending =>
          match handle c evp m (cString text) with
          | (m, some resp) =>
              let (m, out) := serveConnection fuel m pending
              (m, resp.map .byte ++ out)
          | (m, none) => ({ m with unread := [] }, [.closed])
      | _ =>
          if arriving.length < 16 * 1024 - 1 then ({ m with unread := arriving }, [])
          else ({ m with unread := [] }, [.closed])

def mockBridge : Bridge Mock where
  connect m := ({ m with unread := [] }, true)
  answer m json :=
    let arriving := m.unread ++ json.map .byte
    let (m, out) := serveConnection c evp (arriving.length + 1) m arriving
    (m, some out)

end Code

section Framing
variable {t : List Char} {f : Field} {fs : List Field}

theorem carries_bytes (t : List Char) : Carries (t.map .byte) t := by
  induction t with
  | nil => exact .nil
  | cons c t ih => exact .byte c ih

/-- A string without quotes and backslashes. -/
def Bland (s : List Char) : Prop := ∀ c ∈ s, c ≠ '"' ∧ c ≠ '\\'

theorem run_bland {s : List Char} (hs : Bland s) {b : Brace} (hin : b.inString = true)
    (hesc : b.escaped = false) : b.run s = some b := by
  induction s with
  | nil => rfl
  | cons c s ih =>
      obtain ⟨hquote, hback⟩ := hs c List.mem_cons_self
      have hnext : b.next c = some b := by simp [Brace.next, hesc, hin, hquote, hback]
      rw [Brace.run, hnext]
      exact ih fun c' hc' => hs c' (List.mem_cons_of_mem c hc')

theorem neutral_quoted {s : List Char} (hs : Bland s) : Neutral (quoted s) := by
  intro d
  have hopen : (inside d).next '"' = some { inside d with inString := true } := rfl
  rw [quoted, Brace.run, hopen, Option.bind_some, Brace.run_append, run_bland hs rfl rfl]
  rfl

/-- A field that the counting of braces passes over. -/
structure Framed (f : Field) : Prop where
  key : Bland f.key
  text : ∀ s, f.value = .text s → Bland s
  bare : ∀ t, f.value = .bare t → Neutral t

theorem neutral_words (hf : Framed f) : Neutral (quoted f.key ++ ':' :: f.value.render) := by
  have hcolon : Neutral [':'] := neutral_plain (by decide)
  have hrender : Neutral f.value.render := by
    cases hv : f.value with
    | text s => exact neutral_quoted (hf.text s hv)
    | bare t => exact hf.bare t hv
  exact (neutral_quoted hf.key).append (hcolon.append hrender)

theorem weave_words (f : Field) (sep : List Char) :
    weave (f.words sep) = quoted f.key ++ ':' :: f.value.render ++ sep := by
  unfold Field.words
  cases hv : f.value with
  | text s => simp [weave, FieldValue.render]
  | bare t => simp [weave, FieldValue.render]

theorem neutral_fields (hfs : ∀ g ∈ f :: fs, Framed g) :
    ∃ body, weave (wordsOf (f :: fs)) = body ++ ['\x7d'] ∧ Neutral body := by
  induction fs generalizing f with
  | nil =>
      refine ⟨_, ?_, neutral_words (hfs f List.mem_cons_self)⟩
      rw [wordsOf, weave_words]
  | cons g fs ih =>
      obtain ⟨body, hbody, hneutral⟩ := ih fun g' hg' => hfs g' (List.mem_cons_of_mem f hg')
      have hcomma : Neutral [','] := neutral_plain (by decide)
      refine ⟨quoted f.key ++ ':' :: f.value.render ++ [','] ++ body, ?_,
        ((neutral_words (hfs f List.mem_cons_self)).append hcomma).append hneutral⟩
      rw [wordsOf, weave_append, hbody, weave_words]
      simp only [List.append_assoc]

theorem neutral_objectOf (hfs : ∀ g ∈ f :: fs, Framed g) : Neutral (objectOf (f :: fs)) := by
  obtain ⟨body, hbody, hneutral⟩ := neutral_fields hfs
  rw [objectOf, hbody]
  exact hneutral.braces

/-- An object without white space is read from the connection as it is. -/
theorem read_objectOf (hfs : ∀ g ∈ f :: fs, Framed g)
    (hlen : (objectOf (f :: fs)).length < 16 * 1024) (rest : List Recv) :
    readUntilBrace (16 * 1024) ((objectOf (f :: fs)).map .byte ++ rest) =
      .object (objectOf (f :: fs)) rest := by
  obtain ⟨body, hbody, hneutral⟩ := neutral_fields hfs
  have hopen : ({} : Brace).next '\x7b' = some (inside 0) := rfl
  have hrun : ({} : Brace).run ('\x7b' :: body) = some (inside 0) := by
    rw [Brace.run, hopen]
    exact hneutral 0
  have htext : objectOf (f :: fs) = '\x7b' :: body ++ ['\x7d'] := by
    rw [objectOf, hbody]
    rfl
  rw [htext] at hlen ⊢
  exact readUntilBrace_of_run hlen (carries_bytes _) hrun rfl

end Framing

end Iputils.MockBridge
