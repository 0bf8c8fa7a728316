import Iputils.BraceFraming
import Iputils.BridgeBytes
import Iputils.EciesEnvelope
import Iputils.GeoLookup
import Iputils.LinkTranscript
import Iputils.PinPath

/-!
# The client of the bridge

A client asks the bridge for its two keys, compares one of them with the pin, and registers:
it sends a nonce and an envelope, and the bridge answers with a session, an envelope and a
signature. Afterwards it asks for positions. The bridge, the random numbers, the clock and
the store of the pin are not part of the client; any of them can do what it likes. Memory
does not run out. A character of a text is a byte.
-/
set_option autoImplicit false

namespace Iputils.LinkClient
open BraceFraming BridgeFields BridgeBytes EciesEnvelope LinkTranscript PrintfText QuotedWords
open ScanText

section State

/-- `bl_status_t`, the values that are returned. -/
inductive BlStatus
  | invalidArg | transport | protocol | crypto | pinMismatch | bridgeRefused | denied
deriving Repr, DecidableEq

/-- What `LINK_REGISTER` leaves behind. -/
structure Session where
  id : List.Vector UInt8 16
  key : List UInt8
deriving DecidableEq

/-- `struct bl_client_s`. A connection holds what has arrived and has not been read. -/
structure Client where
  socketPath : List Char
  agentName : List Char
  agentVersion : List Char
  ttlSeconds : ℤ
  fd : Option (List Recv) := none
  session : Option Session := none
  pin : Option (List.Vector UInt8 65) := none
  lastBridgeError : Option (List Char) := none

/-- The other end of the socket: whether it takes a connection, and what arrives after a
request; without an answer the request cannot be written. -/
structure Bridge (B : Type) where
  connect : B → B × Bool
  answer : B → List Char → B × Option (List Recv)

/-- `bl_pin_store_vtable_t`, where `load` says what a call gives that can read the store. -/
structure PinStore (S : Type) where
  load : S → Option (List.Vector UInt8 65)
  save : S → List.Vector UInt8 65 → S × Bool

/-- `bl_pin_store_memory` -/
def blPinStoreMemory : PinStore (Option (List.Vector UInt8 65)) where
  load pinned := pinned
  save _ pub65 := (some pub65, true)

structure World (B S : Type) where
  client : Client
  bridge : B
  store : S

/-- What the system gives one registration: random numbers, each of which can fail, `time(NULL)`,
and whether the pin store can be read. -/
structure Draws where
  clientNonce : Option (List.Vector UInt8 16)
  clientShare : Option (List.Vector UInt8 32)
  ephPriv : Option (List.Vector UInt8 32)
  envelopePriv : Option (List.Vector UInt8 32)
  envelopeIv : Option (List.Vector UInt8 12)
  now : ℤ
  storeReads : Bool

end State

section Creation

/-- `bl_client_config_t` without the store and the stream. -/
structure Config where
  socketPath : Option (List Char)
  agentName : Option (List Char)
  agentVersion : Option (List Char)
  ttlSeconds : ℤ

/-- The environment variables and the directory from the password database. -/
structure Environment where
  brightnexusSocket : Option (List Char)
  home : Option (List Char)
  pwDir : Option (List Char)
deriving Inhabited

def resolveDefaultSocket (env : Environment) (cap : ℕ) : Option (List Char) :=
  let path := env.brightnexusSocket.getD []
  if path ≠ [] then if path.length ≥ cap then none else some path
  else
    (PinPath.blGlueHome env.home env.pwDir).bind fun home =>
      let path := home ++ "/.brightchain/brightnexus/brightnexus.sock".toList
      if PinPath.Fits cap path then some path else none

/-- A text of the configuration that is there and not empty. -/
def given (text : Option (List Char)) (default : List Char) : List Char :=
  if text.getD [] = [] then default else text.getD []

def blClientNew (cfg : Config) (env : Environment) : Option Client :=
  let path := cfg.socketPath.getD []
  let socket :=
    if path ≠ [] then if path.length ≥ 1024 then none else some path
    else resolveDefaultSocket env 1024
  socket.map fun socket =>
    let ttl := if cfg.ttlSeconds > 0 then cfg.ttlSeconds else 3600
    { socketPath := socket
      agentName := (PinPath.snprintf 64 (given cfg.agentName "libbrightlink".toList)).1
      agentVersion := (PinPath.snprintf 64 (given cfg.agentVersion [])).1
      ttlSeconds := if ttl > 8 * 3600 then 8 * 3600 else ttl }

end Creation

section Requests
variable {B S : Type} (bridge : Bridge B) (evp : Evp)

/-- `bl_connect`; an address holds 108 bytes. -/
def blConnect (w : World B S) : World B S × Option BlStatus :=
  if w.client.fd.isSome then (w, none)
  else if w.client.socketPath.length ≥ 108 then (w, some .invalidArg)
  else
    let (b, ok) := bridge.connect w.bridge
    if ok then ({ w with bridge := b, client := { w.client with fd := some [] } }, none)
    else ({ w with bridge := b }, some .transport)

/-- `bl_disconnect` -/
def blDisconnect (w : World B S) : World B S := { w with client := { w.client with fd := none } }

/-- What a copy of a text holds; a null byte ends it. -/
def cString (text : List Char) : List Char := text.takeWhile fun c => c ≠ '\x00'

/-- `bl_send_request` -/
def blSendRequest (w : World B S) (json : List Char) : World B S × Except BlStatus (List Char) :=
  match blConnect bridge w with
  | (w, some st) => (w, .error st)
  | (w, none) =>
      let (b, arriving) := bridge.answer w.bridge json
      let w := { w with bridge := b }
      match arriving with
      | none => (blDisconnect w, .error .transport)
      | some arriving =>
          match readUntilBrace (16 * 1024) (w.client.fd.getD [] ++ arriving) with
          | .object text pending =>
              ({ w with client := { w.client with fd := some pending } }, .ok (cString text))
          | _ => (blDisconnect w, .error .transport)

/-- The answer has an error: its text is kept. -/
def refuse (w : World B S) (err : List Char) : World B S :=
  { w with client := { w.client with lastBridgeError := some err } }

/-- An uncompressed key of 65 bytes. -/
def pubkeyOf (bytes : List UInt8) : Option (List.Vector UInt8 65) :=
  if h : bytes.length = 65 then if bytes.head? = some 0x04 then some ⟨bytes, h⟩ else none else none

/-- `fetch_pubkey` -/
def fetchPubkey (w : World B S) (cmdJson : List Char) :
    World B S × Except BlStatus (List.Vector UInt8 65) :=
  match blSendRequest bridge w cmdJson with
  | (w, .error st) => (w, .error st)
  | (w, .ok resp) =>
      match captureBridgeError resp with
      | some err => (refuse w err, .error .bridgeRefused)
      | none =>
          match (jsonFieldB64 evp resp "publicKey".toList 65).bind pubkeyOf with
          | some pub => (w, .ok pub)
          | none => (w, .error .protocol)

end Requests

section Registration
variable {Point : Type} (c : Crypto Point) (evp : Evp)

/-- What the client has drawn for a registration. -/
structure Material where
  nonce : List.Vector UInt8 16
  share : List.Vector UInt8 32
  ephPriv : List.Vector UInt8 32
  ephPub : List.Vector UInt8 65
  issuedAtBd : ℚ

def material (draws : Draws) : Option Material := do
  let nonce ← draws.clientNonce
  let share ← draws.clientShare
  let ephPriv ← draws.ephPriv
  let ephPub ← blcSecpPubUncompressed c ephPriv
  some ⟨nonce, share, ephPriv, ephPub, issuedAtBd draws.now⟩

/-- The text that goes into the envelope. -/
def plaintextJson (client : Client) (m : Material) : List Char :=
  let pubB64 := (blcB64encode evp m.ephPub.toList 128).getD []
  let shareB64 := (blcB64encode evp m.share.toList 64).getD []
  objectOf [⟨"v".toList, .bare ['1']⟩, ⟨"clientPub".toList, .text pubB64⟩,
    ⟨"clientShare".toList, .text shareB64⟩, ⟨"issuedAtBd".toList, .bare (fixedText m.issuedAtBd)⟩,
    ⟨"ttlSeconds".toList, .bare (decText client.ttlSeconds)⟩,
    ⟨"agent".toList, .bare (objectOf [⟨"name".toList, .text client.agentName⟩,
      ⟨"version".toList, .text client.agentVersion⟩,
      ⟨"platform".toList, .text "libbrightlink-c".toList⟩])⟩]

def textBytes (text : List Char) : List UInt8 := text.map fun c => UInt8.ofNat c.toNat

/-- A request without arguments. -/
def commandJson (cmd : List Char) : List Char := objectOf [⟨"cmd".toList, .text cmd⟩]

def registerJson (nonceB64 envB64 : List Char) : List Char :=
  objectOf [⟨"cmd".toList, .text "LINK_REGISTER".toList⟩, ⟨"protocolVersion".toList, .bare ['1']⟩,
    ⟨"clientNonce".toList, .text nonceB64⟩, ⟨"envelope".toList, .text envB64⟩]

example : registerJson "N".toList "E".toList =
    ("\x7b\"cmd\":\"LINK_REGISTER\",\"protocolVersion\":1," ++
      "\"clientNonce\":\"N\",\"envelope\":\"E\"\x7d").toList := by decide +kernel

def need {α : Type} (st : BlStatus) : Option α → Except BlStatus α
  | some a => .ok a
  | none => .error st

/-- From the random numbers to the request. -/
def registerRequest (client : Client) (bridgePub : List.Vector UInt8 65) (draws : Draws) :
    Except BlStatus (Material × List Char) := do
  let m ← need .crypto (material c draws)
  let plaintext := plaintextJson evp client m
  if plaintext.length ≥ 1024 then throw .protocol
  let envelope ← need .crypto
    (blcEciesEncrypt c bridgePub.toList (textBytes plaintext) draws.envelopePriv draws.envelopeIv)
  let envB64 ← need .crypto (blcB64encode evp envelope (4 * ((envelope.length + 2) / 3) + 1))
  let nonceB64 ← need .crypto (blcB64encode evp m.nonce.toList 32)
  let request := registerJson nonceB64 envB64
  if request.length ≥ envB64.length + 256 then throw .protocol
  return (m, request)

/-- `BL_HKDF_INFO` -/
def sessionInfo : List UInt8 := textBytes "brightlink-session-key-v1".toList

/-- An array of exactly this many bytes. -/
def exactly (n : ℕ) (bytes : List UInt8) : Option (List.Vector UInt8 n) :=
  if h : bytes.length = n then some ⟨bytes, h⟩ else none

/-- The session key that both parties derive. -/
def sessionKey (nonce sessionId share bridgeShare : List UInt8) : Option (List UInt8) :=
  c.hkdf (share ++ bridgeShare) (nonce ++ sessionId) sessionInfo

/-- What the client makes of an answer without an error. -/
def acceptRegistration (m : Material) (sepPub : List.Vector UInt8 65) (resp : List Char) :
    Except BlStatus Session := do
  let bridgeIssuedAt ← need .protocol (jsonFieldInt resp "bridgeIssuedAtUnix".toList)
  let grantedTtl ← need .protocol (jsonFieldInt resp "ttlSeconds".toList)
  let sessionId ← need .protocol
    ((jsonFieldB64 evp resp "sessionId".toList 16).bind (exactly 16))
  let envB64 ← need .protocol (jsonFieldStr resp "responseEnvelope".toList (resp.length + 1))
  let envelope ← need .protocol (blcB64decode evp envB64 (resp.length + 1))
  let bridgeShare ← need .crypto ((blcEciesDecrypt c m.ephPriv envelope).bind (exactly 32))
  let key ← need .crypto
    (sessionKey c m.nonce.toList sessionId.toList m.share.toList bridgeShare.toList)
  let transcript :=
    buildTranscript ⟨m.nonce, m.ephPub, m.share, sessionId, bridgeShare⟩ m.issuedAtBd
      bridgeIssuedAt grantedTtl
  let sigB64 ← need .protocol (jsonFieldStr resp "transcriptSig".toList 1024)
  let sig ← need .protocol (blcB64decode evp sigB64 256)
  if blcVerifyP256 c sepPub transcript sig then return ⟨sessionId, key⟩ else throw .crypto

variable {B S : Type} (bridge : Bridge B) (store : PinStore S)

/-- `bl_clear_bridge_error` -/
def blClearBridgeError (w : World B S) : World B S :=
  { w with client := { w.client with lastBridgeError := none } }

/-- A pin that is not there yet is loaded. A store that cannot be read is one without a pin. -/
def loadPin (storeReads : Bool) (w : World B S) : World B S :=
  match w.client.pin with
  | some _ => w
  | none =>
      if storeReads then { w with client := { w.client with pin := store.load w.store } } else w

/-- The first registration pins the key; it does not matter whether the store takes it. -/
def pinFirst (w : World B S) (sepPub : List.Vector UInt8 65) : World B S :=
  match w.client.pin with
  | some _ => w
  | none =>
      { w with
        client := { w.client with pin := some sepPub }
        store := (store.save w.store sepPub).1 }

def commit (w : World B S) (session : Session) : World B S :=
  { w with client := { w.client with session := some session } }

/-- The last exchange of a registration. -/
def exchange (draws : Draws) (w : World B S) (bridgePub sepPub : List.Vector UInt8 65) :
    World B S × Except BlStatus Session :=
  match registerRequest c evp w.client bridgePub draws with
  | .error st => (w, .error st)
  | .ok (m, request) =>
      match blSendRequest bridge w request with
      | (w, .error st) => (w, .error st)
      | (w, .ok resp) =>
          match captureBridgeError resp with
          | some err => (refuse w err, .error .bridgeRefused)
          | none => (w, acceptRegistration c evp m sepPub resp)

/-- `bl_register`; `none` is `BL_OK`. -/
def blRegister (draws : Draws) (w : World B S) : World B S × Option BlStatus :=
  if w.client.session.isSome then (w, none)
  else
    let w := loadPin store draws.storeReads (blClearBridgeError w)
    match fetchPubkey bridge evp w (commandJson "GET_PUBLIC_KEY".toList) with
    | (w, .error st) => (w, some st)
    | (w, .ok bridgePub) =>
        match fetchPubkey bridge evp w (commandJson "GET_ENCLAVE_PUBLIC_KEY".toList) with
        | (w, .error st) => (w, some st)
        | (w, .ok sepPub) =>
            if w.client.pin ≠ none ∧ w.client.pin ≠ some sepPub then (w, some .pinMismatch)
            else
              match exchange c evp bridge draws w bridgePub sepPub with
              | (w, .error st) => (w, some st)
              | (w, .ok session) => (commit (pinFirst store w sepPub) session, none)

end Registration

section Geo

inductive BlGeoFormat
  | wgs84 | brightspace | both
deriving Repr, DecidableEq

def formatString : BlGeoFormat → List Char
  | .wgs84 => "wgs84".toList
  | .brightspace => "brightspace".toList
  | .both => "both".toList

/-- `bl_geo_position_t`; `none` is what `memset` and the assignment of `NAN` leave. -/
structure BlGeoPosition (D : Type) where
  wgs84Lat : Option D
  wgs84Lon : Option D
  wgs84AltM : Option D
  haveWgs84 : Bool
  brightspaceXBm : Option D
  brightspaceYBm : Option D
  brightspaceZBm : Option D
  brightspaceEpochBd : Option D
  haveBrightspace : Bool
  accuracyM : Option D
  brightdate : Option D

variable {D : Type} (doubles : GeoLookup.Doubles D)

/-- `json_field_double` -/
def jsonFieldDouble (json key : List Char) : Option D :=
  (jsonLocate json key).bind fun p =>
    (NumeralText.strtodItem (p.dropWhile isSpace)).map fun i => doubles.value i.1

/-- What `bl_geo_get` reads from an answer. A field is read only if those before it in its
block are there. -/
def positionOf (resp : List Char) : BlGeoPosition D :=
  let field := fun key : String => jsonFieldDouble doubles resp key.toList
  let lat := field "lat"
  let lon := if lat.isSome then field "lon" else none
  let x := field "x_bm"
  let y := if x.isSome then field "y_bm" else none
  let z := if y.isSome then field "z_bm" else none
  { wgs84Lat := lat
    wgs84Lon := lon
    wgs84AltM := if lon.isSome then field "alt_m" else none
    haveWgs84 := lon.isSome
    brightspaceXBm := x
    brightspaceYBm := y
    brightspaceZBm := z
    brightspaceEpochBd := if z.isSome then field "epoch_bd" else none
    haveBrightspace := z.isSome
    accuracyM := field "accuracy_m"
    brightdate := field "brightdate" }

variable {Point B S : Type} (c : Crypto Point) (evp : Evp) (bridge : Bridge B)
  (store : PinStore S)

def geoJson (format : BlGeoFormat) : List Char :=
  objectOf [⟨"cmd".toList, .text "LINK_GEO_GET".toList⟩,
    ⟨"format".toList, .text (formatString format)⟩]

/-- The exchange of `bl_geo_get`. -/
def geoExchange (format : BlGeoFormat) (w : World B S) :
    World B S × Except BlStatus (BlGeoPosition D) :=
  match blSendRequest bridge w (geoJson format) with
  | (w, .error st) => (w, .error st)
  | (w, .ok resp) =>
      match captureBridgeError resp with
      | some err =>
          (refuse w err,
            .error (if strstr "denied".toList err ≠ none then .denied else .bridgeRefused))
      | none =>
          let position := positionOf doubles resp
          if strstr "\"ok\":true".toList resp = none then (w, .error .protocol)
          else if !position.haveWgs84 && !position.haveBrightspace then (w, .error .protocol)
          else (w, .ok position)

/-- `bl_geo_get` -/
def blGeoGet (draws : Draws) (format : BlGeoFormat) (w : World B S) :
    World B S × Except BlStatus (BlGeoPosition D) :=
  let w := blClearBridgeError w
  match if w.client.session.isSome then (w, none) else blRegister c evp bridge store draws w with
  | (w, some st) => (w, .error st)
  | (w, none) => geoExchange doubles bridge format w

end Geo

end Iputils.LinkClient
