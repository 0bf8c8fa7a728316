import Iputils.Md5
import Iputils.ParseReply

/-!
# Node information queries

Every query carries a nonce: its number in network order and the beginning of a digest
of the number with a secret. `niquery_nonce` keeps the last digest in static variables;
whatever is in them, a nonce is accepted if it has the digest of its own number. The
replies are printed by `pr_niquery_reply`, for which the resolver library expands domain
names and formats addresses.
-/
set_option autoImplicit false

namespace Iputils.NodeInfo
open MachineInt ByteBuffer PrintfText JsonPacket PingOutput PrOptions ParseReply Md5

def niNonceSize : ℕ := 8

section Nonce

/-- The digest for a number in network order; the secret is `nonce_secret` in memory. -/
def nonceDigest (secret number : List UInt8) : List UInt8 :=
  iputilsMd5Final (iputilsMd5Update (iputilsMd5Update iputilsMd5Init secret) number)

/-- The static variables of `niquery_nonce`. -/
structure NonceCache (secret : List UInt8) where
  digest : List UInt8
  seq : ℤ
  valid : seq = -1 ∨ digest = nonceDigest secret (le16 seq)

def NonceCache.initial (secret : List UInt8) : NonceCache secret :=
  ⟨List.replicate md5Length 0, -1, Or.inl rfl⟩

variable {secret : List UInt8}

/-- The digest is computed again unless it is that of the same number. -/
def NonceCache.refresh (cache : NonceCache secret) (nonce : List UInt8) (fill : Bool) :
    NonceCache secret :=
  if fill = true ∨ cache.seq ≠ le16At nonce 0 ∨ cache.seq = -1 then
    ⟨nonceDigest secret (bytesAt nonce 0 2), le16At nonce 0, Or.inr (by rw [le16_le16At])⟩
  else cache

/-- The static variables, the nonce and the return value. -/
def niqueryNonce (cache : NonceCache secret) (nonce : List UInt8) (fill : Bool) :
    NonceCache secret × List UInt8 × ℤ :=
  let cache := cache.refresh nonce fill
  if fill then (cache, store nonce 2 (cache.digest.take (niNonceSize - 2)), 0)
  else if bytesAt nonce 2 (niNonceSize - 2) ≠ cache.digest.take (niNonceSize - 2) then
    (cache, nonce, -1)
  else (cache, nonce, be16At nonce 0)

def niqueryFillNonce (cache : NonceCache secret) (seq : ℤ) (nonce : List UInt8) :
    NonceCache secret × List UInt8 :=
  let filled := niqueryNonce cache (store nonce 0 (be16 seq)) true
  (filled.1, filled.2.1)

def niqueryCheckNonce (cache : NonceCache secret) (nonce : List UInt8) : ℤ :=
  (niqueryNonce cache nonce false).2.2

theorem refresh_digest (cache : NonceCache secret) (nonce : List UInt8) (fill : Bool) :
    (cache.refresh nonce fill).digest = nonceDigest secret (bytesAt nonce 0 2) := by
  unfold NonceCache.refresh
  split_ifs with h
  · rfl
  · obtain ⟨-, hrest⟩ := not_or.mp h
    obtain ⟨hseq, hset⟩ := not_or.mp hrest
    rw [cache.valid.resolve_left hset, not_not.mp hseq, le16_le16At]

/-- What is kept from the calls before does not matter. -/
theorem niqueryCheckNonce_eq (cache : NonceCache secret) (nonce : List UInt8) :
    niqueryCheckNonce cache nonce =
      if bytesAt nonce 2 6 = (nonceDigest secret (bytesAt nonce 0 2)).take 6 then be16At nonce 0
      else -1 := by
  have hsize : niNonceSize - 2 = 6 := rfl
  unfold niqueryCheckNonce niqueryNonce
  dsimp only
  rw [refresh_digest, hsize]
  by_cases h : bytesAt nonce 2 6 = (nonceDigest secret (bytesAt nonce 0 2)).take 6
  · rw [if_neg (by decide), if_neg (not_not_intro h), if_pos h]
  · rw [if_neg (by decide), if_pos h, if_neg h]

end Nonce

section Reply

/-- The functions of the resolver library. The text of `strerror` stands for a failure of
`inet_ntop`. -/
structure Resolver where
  dnExpand : List UInt8 → ℕ → Option (ℕ × List UInt8)
  inetNtop : ℤ → List UInt8 → Option (List Char)
  strerror : List Char
  dnExpand_pos : ∀ msg p ret name, dnExpand msg p = some (ret, name) → 0 < ret

def niQtypeDnsname : ℤ := 2
def niQtypeIpv6addr : ℤ := 3
def niQtypeIpv4addr : ℤ := 4
def niIcmp6Success : ℤ := 0
def niIcmp6Refused : ℤ := 1
def niIcmp6Unknown : ℤ := 2

/-- A `char` is signed: `%o` gets the bits of a negative `int`. -/
def putcharSafe (c : UInt8) : List Char :=
  if 32 ≤ c.toNat ∧ c.toNat < 127 then [Char.ofNat c.toNat]
  else
    let digits := Nat.toDigits 8 (if c.toNat < 128 then c.toNat else c.toNat + 4294967040)
    '\\' :: (List.replicate (3 - digits.length) '0' ++ digits)

def pingPrintErrorParse (reason : String) : Print :=
  .member (" parse error (".toList ++ reason.toList ++ [')']) (.str "error" reason.toList)

def hex02Text (x : ℤ) : List Char := List.replicate (2 - (hexText x).length) '0' ++ hexText x

def pingPrintErrorQtype (val : ℤ) : Print :=
  .member (" unknown qtype(0x".toList ++ hex02Text val ++ [')'])
    (.str "error" "unknown qtype".toList)

def comma (continued : Bool) : List Print := if continued then [.text [',']] else []

/-- The loop of `pr_niquery_reply_name`; `data` is what follows the header. Each round
takes at least one byte of it, so as many rounds as bytes are enough. -/
def replyNames (lib : Resolver) (data : List UInt8) : ℕ → ℕ → Bool → List Print
  | 0, _, _ => []
  | fuel + 1, p, continued =>
      if p < data.length then
        match lib.dnExpand data p with
        | none => comma continued ++ [pingPrintErrorParse "truncated"]
        | some (ret, name) =>
            let fqdn := ¬ (p + ret < data.length ∧ data.getD (p + ret) 0 = 0)
            comma continued ++
              [.text (' ' :: (name.flatMap putcharSafe ++ if fqdn then ['.'] else []))] ++
              replyNames lib data fuel (p + ret + if fqdn then 0 else 1) true
      else []

def prNiqueryReplyName (lib : Resolver) (data : List UInt8) (len : ℤ) : List Print :=
  if len - 20 < 0 then [pingPrintErrorParse "too short"]
  else replyNames lib data data.length 4 false

/-- The loop of `pr_niquery_reply_addr` for addresses of `aflen` bytes. -/
def replyAddrs (lib : Resolver) (qtype : ℤ) (aflen : ℕ) (data : List UInt8) :
    ℕ → ℕ → Bool → List Print
  | 0, _, _ => []
  | fuel + 1, p, continued =>
      if p < data.length then
        if p + 4 + aflen > data.length then
          comma continued ++ [pingPrintErrorParse "truncated"]
        else
          let text :=
            match lib.inetNtop qtype (bytesAt data (p + 4) aflen) with
            | some address => ' ' :: address
            | none => " unexpected error in inet_ntop(".toList ++ lib.strerror ++ [')']
          comma continued ++ [.text text] ++
            replyAddrs lib qtype aflen data fuel (p + 4 + aflen) true
      else []

/-- The flag for a truncated list is the same for both kinds of addresses. -/
def prNiqueryReplyAddr (lib : Resolver) (c : Config) (qtype : ℤ) (flags : ℤ) (data : List UInt8) :
    List Print :=
  replyAddrs lib qtype (if qtype = niQtypeIpv4addr then 4 else 16) data data.length 0 false ++
    if flags % 2 = 1 then [truncatedPrint c] else []

def prNiqueryReply (lib : Resolver) (c : Config) (buf : List UInt8) (len : ℤ) : List Print :=
  let code := byteAt buf 1
  let qtype := be16At buf 4
  let data := (buf.take len.toNat).drop 16
  (if code = niIcmp6Success then
    if qtype = niQtypeDnsname then prNiqueryReplyName lib data len
    else if qtype = niQtypeIpv4addr ∨ qtype = niQtypeIpv6addr then
      prNiqueryReplyAddr lib c qtype (be16At buf 6) data
    else [pingPrintErrorQtype qtype]
   else if code = niIcmp6Refused then [.text " refused".toList]
   else if code = niIcmp6Unknown then [.text " unknown".toList]
   else [.text (" unknown code(".toList ++ hex02Text (256 * code) ++ [')'])]) ++
  [.text ("; seq=".toList ++ decText (be16At buf 8) ++ [';'])]

/-- The output depends on the received bytes, if the header was received. -/
theorem prNiqueryReply_agree (lib : Resolver) (c : Config) {cc : ℕ} {buf buf' : List UInt8}
    (h : Agree cc buf buf') (hcc : 16 ≤ cc) :
    prNiqueryReply lib c buf cc = prNiqueryReply lib c buf' cc := by
  have hdata : buf.take (cc : ℤ).toNat = buf'.take (cc : ℤ).toNat := by
    rw [Int.toNat_natCast]
    exact h
  unfold prNiqueryReply
  dsimp only
  rw [hdata, h.byteAt (by omega), h.be16At (by omega), h.be16At (by omega), h.be16At (by omega)]

end Reply

/-- The surroundings with the functions of this module. -/
def withNodeInfo {secret : List UInt8} (env : Env) (c : Config) (cache : NonceCache secret)
    (lib : Resolver) : Env :=
  { env with
    niqueryCheckNonce := niqueryCheckNonce cache
    prNiqueryReply := prNiqueryReply lib c }

end Iputils.NodeInfo
