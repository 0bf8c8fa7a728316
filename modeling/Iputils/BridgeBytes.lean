import Iputils.Base64
import Iputils.BridgeFields

/-!
# Bytes in an answer

The bridge and its client send keys, shares and envelopes as base64 in string fields.
The conversion itself is done by the block functions of a library, which know no padding:
the number of bytes is found from the text.
-/
set_option autoImplicit false

namespace Iputils.BridgeBytes
open Base64 BridgeFields

section Code

/-- `EVP_EncodeBlock` and `EVP_DecodeBlock`. -/
structure Evp where
  encodeBlock : List UInt8 → List Char
  decodeBlock : List Char → Option (List UInt8)

/-- What their documentation says about encoded texts. -/
structure Evp.Rfc4648 (evp : Evp) : Prop where
  encode : ∀ bs, evp.encodeBlock bs = Base64.encode bs
  decode : ∀ bs,
    evp.decodeBlock (Base64.encode bs) = some (bs ++ List.replicate (padding bs.length) 0)

variable (evp : Evp)

/-- `blc_b64encode`; the terminator needs room as well. -/
def blcB64encode (src : List UInt8) (cap : ℕ) : Option (List Char) :=
  let needed := 4 * ((src.length + 2) / 3) + 1
  if needed > cap then none else some (evp.encodeBlock src)

/-- `blc_b64decode`. -/
def blcB64decode (src : List Char) (cap : ℕ) : Option (List UInt8) :=
  let pad := pads src
  let preTrim := src.length * 3 / 4
  if preTrim < pad then none
  else
    let real := preTrim - pad
    if real > cap then none
    else
      match evp.decodeBlock src with
      | some out => if out.length ≠ preTrim then none else some (out.take real)
      | none => none

/-- `json_field_b64`. -/
def jsonFieldB64 (json key : List Char) (cap : ℕ) : Option (List UInt8) :=
  (jsonFieldStr json key 4096).bind fun tmp => blcB64decode evp tmp cap

end Code

section RoundTrip
variable {evp : Evp} {bs : List UInt8} {cap : ℕ} {key : List Char} {before after : List Field}

/-- The block functions without white space around a text. -/
def plainEvp : Evp := ⟨Base64.encode, Base64.decodeBlock⟩

theorem rfc4648_plainEvp : plainEvp.Rfc4648 := ⟨fun _ => rfl, decode_encode⟩

/-- The bytes of an encoded text are found if they fit. -/
theorem blcB64decode_encode (hevp : evp.Rfc4648) (bs : List UInt8) (cap : ℕ) :
    blcB64decode evp (Base64.encode bs) cap = if bs.length > cap then none else some bs := by
  have hlen : (Base64.encode bs).length * 3 / 4 = bs.length + padding bs.length := by
    rw [length_encode]
    unfold padding
    omega
  have hout : (bs ++ List.replicate (padding bs.length) (0 : UInt8)).length =
      bs.length + padding bs.length := by simp
  unfold blcB64decode
  simp only [hlen, pads_encode, hevp.decode, hout, Nat.add_sub_cancel, ne_eq, not_true_eq_false,
    if_false, List.take_left]
  rw [if_neg (by omega)]

theorem blcB64encode_fits (hevp : evp.Rfc4648) (h : 4 * ((bs.length + 2) / 3) + 1 ≤ cap) :
    blcB64encode evp bs cap = some (Base64.encode bs) := by
  unfold blcB64encode
  simp only [hevp.encode]
  exact if_neg (not_lt.mpr h)

theorem encode_bland (bs : List UInt8) : ∀ c ∈ Base64.encode bs, c ≠ '"' ∧ c ≠ '\\' :=
  fun _ hc => ⟨(encode_plain hc).1, (encode_plain hc).2.1⟩

/-- What is read from a field with the text of some bytes. -/
theorem bytes_read (hevp : evp.Rfc4648) (hkey : Key key) (hplain : ∀ f ∈ before, f.Plain)
    (hfirst : ∀ f ∈ before, f.key ≠ key) (after : List Field) :
    let found := bs.length ≤ 3069 ∧ bs.length ≤ cap ∧ ∀ f ∈ before, f.value ≠ .text key
    let read := jsonFieldB64 evp (objectOf (before ++ ⟨key, .text (Base64.encode bs)⟩ :: after)) key cap
    found ∧ read = some bs ∨ ¬ found ∧ read = none := by
  have hroom : (Base64.encode bs).length < 4096 ↔ bs.length ≤ 3069 := by
    rw [length_encode]
    omega
  unfold jsonFieldB64
  rcases field_read hkey (show 0 < 4096 by decide) (encode_bland bs) hplain hfirst after with
    ⟨⟨hlen, hother⟩, hread⟩ | ⟨hlost, hread⟩
  · rw [hread, Option.bind_some, blcB64decode_encode hevp]
    split_ifs with hcap
    · exact Or.inr ⟨fun h => absurd h.2.1 (by omega), rfl⟩
    · exact Or.inl ⟨⟨hroom.mp hlen, by omega, hother⟩, rfl⟩
  · rw [hread]
    exact Or.inr ⟨fun h => hlost ⟨hroom.mpr h.1, h.2.2⟩, rfl⟩

theorem bytes_found (hevp : evp.Rfc4648) (hkey : Key key) (hplain : ∀ f ∈ before, f.Plain)
    (hfirst : ∀ f ∈ before, f.key ≠ key) (after : List Field)
    (h : bs.length ≤ 3069 ∧ bs.length ≤ cap ∧ ∀ f ∈ before, f.value ≠ .text key) :
    jsonFieldB64 evp (objectOf (before ++ ⟨key, .text (Base64.encode bs)⟩ :: after)) key cap =
      some bs := by
  rcases bytes_read hevp hkey hplain hfirst after with ⟨-, hread⟩ | ⟨hlost, -⟩
  · exact hread
  · exact absurd h hlost

end RoundTrip

end Iputils.BridgeBytes
