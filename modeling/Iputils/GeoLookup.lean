import Mathlib.Data.List.Infix
import Mathlib.Tactic.NormNum
import Iputils.JsonPlaces
import Iputils.LineTimes
import Iputils.Utf8Text

/-!
# The position that a response gives

`bs_geolocate` asks a service where an address is and reads the answer with `strstr` and
`strtod` from the first 510 bytes of its first line. The service answers with a JSON
object. What its members are is one question; what stands behind the first text that
looks like a member's key is another.
-/
set_option autoImplicit false

namespace Iputils.GeoLookup
open ScanText JsonText NumeralText JsonPlaces Utf8Text

section Code

/-- `bs_geo_t`. -/
structure BsGeo (D : Type) where
  lat : D
  lon : D
  valid : Bool
  city : List Char
  country : List Char
  tag : List Char

/-- The `double` that a numeral stands for, and zero. -/
structure Doubles (D : Type) where
  value : List Char → D
  zero : D

variable {D : Type} (doubles : Doubles D)

def strtod (s : List Char) : D :=
  match strtodItem (s.dropWhile isSpace) with
  | some item => doubles.value item.1
  | none => doubles.zero

/-- The bytes that `fgets` puts into a buffer of this size. -/
def fgets (size : ℕ) (input : List UInt8) : List UInt8 :=
  (input.takeWhile (· ≠ 10) ++ (input.dropWhile (· ≠ 10)).take 1).take (size - 1)

/-- The bytes of `buf` in front of the first null byte. -/
def kept (response : List UInt8) : List UInt8 := (fgets (512 - 1) response).takeWhile (· ≠ 0)

def byteText (bytes : List UInt8) : List Char := bytes.map fun b => Char.ofNat b.toNat

/-- The member whose key and colon are this text, as `bs_geolocate` looks for it. -/
def numberAt (mark buf : List Char) : D :=
  match strstr mark buf with
  | some p => strtod doubles (p.drop mark.length)
  | none => doubles.zero

/-- The text between the mark and the next quote, for a field of this size. -/
def stringAt (size : ℕ) (mark buf : List Char) : List Char :=
  match strstr mark buf with
  | some p =>
      let p := p.drop mark.length
      if (strchr '"' p).isSome then (p.takeWhile (· ≠ '"')).take (size - 1) else []
  | none => []

/-- `none` for a command that does not run. -/
def bsGeolocate (response : Option (List UInt8)) : BsGeo D :=
  let g : BsGeo D := ⟨doubles.zero, doubles.zero, false, [], [], "[~geoIP]".toList⟩
  match response with
  | none => g
  | some response =>
      let buf := byteText (kept response)
      match strstr "\"success\"".toList buf with
      | none => g
      | some _ =>
          { g with
            lat := numberAt doubles "\"lat\":".toList buf
            lon := numberAt doubles "\"lon\":".toList buf
            city := stringAt 64 "\"city\":\"".toList buf
            country := stringAt 64 "\"country\":\"".toList buf
            valid := true }

end Code

section Statement

/-- A response that is an object with the status `success`. -/
structure Success (response : List UInt8) where
  text : List Char
  bytes : utf8 text = response
  members : List (List Char × Json)
  object : parse text = some (.obj members)
  status : ("status".toList, .str "success".toList) ∈ members

variable {response : List UInt8}

/-- `t` is the value of a member that ends within the bytes kept. -/
structure Success.Number (s : Success response) (key t : List Char) (m : Place) : Prop where
  mem : m ∈ places s.text
  key_eq : m.key = key
  value_eq : m.value = .num t
  within : ∃ upto, s.text = upto ++ m.behind ∧ (utf8 upto).length ≤ (kept response).length

variable {D : Type} (doubles : Doubles D)

/-- Latitude and longitude are the values of members of the response. -/
def FromResponse (response : List UInt8) (g : BsGeo D) : Prop :=
  ∃ s : Success response,
    (∃ t m, s.Number "lat".toList t m ∧ g.lat = doubles.value t) ∧
    ∃ t m, s.Number "lon".toList t m ∧ g.lon = doubles.value t

def Right (response : List UInt8) : Prop :=
  (bsGeolocate doubles (some response)).valid = true →
    FromResponse doubles response (bsGeolocate doubles (some response))

def mark (key : List Char) : List Char := '"' :: (key ++ ['"', ':'])

/-- The numeral that stands behind the first mark, if one does. -/
def numeralAt (mark buf : List Char) : Option (List Char) :=
  (strstr mark buf).bind fun p =>
    (strtodItem ((p.drop mark.length).dropWhile isSpace)).map Prod.fst

/-- The first mark in the bytes kept is the key of the member itself, or it stands elsewhere and
the same numeral behind it. -/
inductive Success.Found (s : Success response) (key t : List Char) (m : Place) : Prop
  | here (before : List Char) (htext : s.text = before ++ m.here)
      (hfirst : strstr (mark key) (byteText (kept response)) =
        some ((byteText (kept response)).drop (utf8 before).length))
  | elsewhere (hsame : numeralAt (mark key) (byteText (kept response)) = some t)

/-- Without the word `success` no record is valid. -/
def Faithful (response : List UInt8) : Prop :=
  strstr "\"success\"".toList (byteText (kept response)) = none ∨
    ∃ s : Success response,
      (∃ t m, s.Number "lat".toList t m ∧ s.Found "lat".toList t m) ∧
      ∃ t m, s.Number "lon".toList t m ∧ s.Found "lon".toList t m

end Statement

section Bytes

theorem kept_front (response : List UInt8) : kept response <+: response := by
  have hline : fgets (512 - 1) response <+: response := by
    have hsplit : response.takeWhile (· ≠ 10) ++ (response.dropWhile (· ≠ 10)).take 1 <+:
        response.takeWhile (· ≠ 10) ++ response.dropWhile (· ≠ 10) :=
      (List.prefix_append_right_inj _).mpr (List.take_prefix 1 _)
    rw [List.takeWhile_append_dropWhile] at hsplit
    exact (List.take_prefix _ _).trans hsplit
  exact (List.takeWhile_prefix _).trans hline

theorem byteText_append (u v : List UInt8) : byteText (u ++ v) = byteText u ++ byteText v :=
  List.map_append

theorem byteText_drop (n : ℕ) (u : List UInt8) : byteText (u.drop n) = (byteText u).drop n :=
  List.map_drop

theorem byteText_ascii {s : List Char} (h : ∀ c ∈ s, Ascii c) : byteText (utf8 s) = s := by
  unfold byteText
  rw [utf8_ascii h, List.map_map]
  refine (List.map_congr_left fun c hc => ?_).trans (List.map_id _)
  rw [Function.comp_apply, charByte_toNat (h c hc), Char.ofNat_toNat]
  rfl

theorem ascii_digits {ds : List Char} (h : Digits ds) : ∀ c ∈ ds, Ascii c := by
  intro c hc
  have hdigit := h.all c hc
  unfold Char.isDigit at hdigit
  rw [Bool.and_eq_true, decide_eq_true_iff, decide_eq_true_iff] at hdigit
  have hle : c.val.toNat ≤ 57 := UInt32.le_iff_toNat_le.mp hdigit.2
  exact Nat.lt_of_le_of_lt hle (by norm_num)

theorem ascii_sign {s : List Char} (h : Sign s) : ∀ c ∈ s, Ascii c := by
  obtain rfl | rfl | rfl := h <;> decide

theorem ascii_number {t : List Char} (h : JsonNumber t) : ∀ c ∈ t, Ascii c := by
  obtain @⟨sign, whole, f, e, hsign, hwhole, hf, he⟩ := h
  have hfraction : ∀ c ∈ f, Ascii c := by
    obtain rfl | ⟨ds, rfl, hds⟩ := hf
    · exact List.forall_mem_nil _
    · exact List.forall_mem_cons.mpr ⟨by decide, ascii_digits hds⟩
  have hexponent : ∀ c ∈ e, Ascii c := by
    obtain rfl | ⟨c, s, ds, rfl, hc, hs, hds⟩ := he
    · exact List.forall_mem_nil _
    · have hdigits := List.forall_mem_append.mpr ⟨ascii_sign hs, ascii_digits hds⟩
      refine List.forall_mem_cons.mpr ⟨?_, hdigits⟩
      obtain rfl | rfl := hc <;> decide
  simp only [List.forall_mem_append]
  exact ⟨ascii_sign hsign, ⟨ascii_digits hwhole, hfraction⟩, hexponent⟩

theorem ascii_ws {c : Char} (h : isWs c = true) : Ascii c ∧ isSpace c = true := by
  simp only [isWs, Bool.or_eq_true, decide_eq_true_eq] at h
  obtain ((rfl | rfl) | rfl) | rfl := h <;> decide

/-- Bytes at the front of a text end what the text ends. -/
theorem ends_byteText {s : List Char} {w v : List UInt8} (hs : Ends s) (h : w ++ v = utf8 s) :
    Ends (byteText w) := by
  cases w with
  | nil => exact nofun
  | cons b w =>
      cases s with
      | nil => cases h
      | cons c s =>
          have hc : c ∈ enders := hs c rfl
          have hascii : Ascii c := (by decide : ∀ c ∈ enders, Ascii c) c hc
          rw [utf8_cons, utf8EncodeChar_ascii hascii] at h
          obtain ⟨rfl, -⟩ := List.cons.inj h
          intro d hd
          obtain rfl : Char.ofNat (charByte c).toNat = d := Option.some.inj hd
          rw [charByte_toNat hascii, Char.ofNat_toNat]
          exact hc

end Bytes

section Reading
variable {D : Type} (doubles : Doubles D)

/-- `strtod` on the value of a member. -/
theorem strtod_number {ws t r : List Char} (hws : ∀ c ∈ ws, isWs c = true) (ht : JsonNumber t)
    (hr : Ends r) : strtod doubles (ws ++ (t ++ r)) = doubles.value t := by
  have hskip : (ws ++ (t ++ r)).dropWhile isSpace = t ++ r := by
    rw [List.dropWhile_append_of_pos fun c hc => (ascii_ws (hws c hc)).2, ht.not_space]
  rw [strtod, hskip, strtodItem_number ht hr]

variable {response : List UInt8}

/-- The bytes kept are those up to the end of the value, and perhaps more. -/
theorem kept_split {s : Success response} {key t : List Char} {m : Place}
    (h : s.Number key t m) :
    ∃ upto w v, s.text = upto ++ m.behind ∧ kept response = utf8 upto ++ w ∧
      w ++ v = utf8 m.behind := by
  obtain ⟨upto, htext, hlen⟩ := h.within
  obtain ⟨v, hv⟩ := kept_front response
  have hwhole : utf8 upto ++ utf8 m.behind = response := by
    rw [← utf8_append, ← htext, s.bytes]
  have hupto : utf8 upto <+: kept response :=
    List.prefix_of_prefix_length_le ⟨_, hwhole⟩ ⟨v, hv⟩ hlen
  obtain ⟨w, hw⟩ := hupto
  have hrest : utf8 upto ++ (w ++ v) = utf8 upto ++ utf8 m.behind := by
    rw [← List.append_assoc, hw, hv, hwhole]
  exact ⟨upto, w, v, htext, hw.symm, List.append_cancel_left hrest⟩

/-- A mark that is the key of a member is written without escapes. -/
theorem here_of_first {s : Success response} {key before : List Char} {m : Place}
    (hkey : ∀ c ∈ mark key, Ascii c) (htext : s.text = before ++ m.here)
    (hfirst : strstr (mark key) (byteText (kept response)) =
      some ((byteText (kept response)).drop (utf8 before).length)) :
    ∃ cs, m.here = mark key ++ cs := by
  have hmark := (strstr_some hfirst).1
  rw [← byteText_drop] at hmark
  have hbytes := hmark.map charByte
  rw [byteText, map_charByte] at hbytes
  have hhere : (kept response).drop (utf8 before).length <+: utf8 m.here := by
    have hrest : response.drop (utf8 before).length = utf8 m.here := by
      rw [← s.bytes, htext, utf8_append, List.drop_left]
    rw [← hrest]
    exact (kept_front response).drop _
  obtain ⟨w, hw⟩ := hbytes.trans hhere
  obtain ⟨cs, hcs, -⟩ := utf8_ascii_append hkey hw.symm
  exact ⟨cs, hcs⟩

/-- The number behind the key of the member itself is the value of the member. -/
theorem strtod_here {s : Success response} {key t before : List Char} {m : Place}
    (hclean : Clean key) (hascii : ∀ c ∈ mark key, Ascii c) (h : s.Number key t m)
    (htext : s.text = before ++ m.here)
    (hfirst : strstr (mark key) (byteText (kept response)) =
      some ((byteText (kept response)).drop (utf8 before).length)) :
    strtod doubles (((byteText (kept response)).drop (utf8 before).length).drop
      (mark key).length) = doubles.value t := by
  obtain ⟨cs, hcs⟩ := here_of_first hascii htext hfirst
  have hread := (places_spec s.object).2 m h.mem
  have hhere : m.here = '"' :: (key ++ '"' :: ':' :: cs) := by
    rw [hcs, mark]
    simp
  obtain ⟨ws, rfl, hws, ht⟩ := hread.number hclean hhere h.value_eq
  obtain ⟨upto, w, v, hupto, hkept, hw⟩ := kept_split h
  have hfront : upto = before ++ (mark key ++ (ws ++ t)) := by
    have heq : upto ++ m.behind = before ++ (mark key ++ (ws ++ t)) ++ m.behind := by
      rw [← hupto, htext, hcs]
      simp only [List.append_assoc]
    exact List.append_cancel_right heq
  have hinner : ∀ c ∈ mark key ++ (ws ++ t), Ascii c := by
    simp only [List.forall_mem_append]
    exact ⟨hascii, fun c hc => (ascii_ws (hws c hc)).1, ascii_number ht⟩
  have hbuf : (byteText (kept response)).drop (utf8 before).length =
      mark key ++ (ws ++ (t ++ byteText w)) := by
    rw [hkept, hfront, utf8_append, List.append_assoc, ← byteText_drop, List.drop_left,
      byteText_append, byteText_ascii hinner]
    simp only [List.append_assoc]
  rw [hbuf, List.drop_left]
  exact strtod_number doubles hws ht (ends_byteText hread.ends hw)

theorem numberAt_eq (mark buf : List Char) :
    numberAt doubles mark buf = ((numeralAt mark buf).map doubles.value).getD doubles.zero := by
  unfold numberAt numeralAt strtod
  cases strstr mark buf with
  | none => rfl
  | some p =>
      dsimp only [Option.bind_some]
      cases strtodItem ((p.drop mark.length).dropWhile isSpace) <;> rfl

/-- Doubles that remember the text. -/
def textDoubles : Doubles (Option (List Char)) := ⟨some, none⟩

theorem numberAt_text (mark buf : List Char) : numberAt textDoubles mark buf = numeralAt mark buf := by
  rw [numberAt_eq]
  cases numeralAt mark buf <;> rfl

theorem found_iff {s : Success response} {key t : List Char} {m : Place}
    (hclean : Clean key) (hascii : ∀ c ∈ mark key, Ascii c) (h : s.Number key t m) :
    s.Found key t m ↔ numeralAt (mark key) (byteText (kept response)) = some t := by
  constructor
  · rintro (⟨before, htext, hfirst⟩ | hsame)
    · rw [← numberAt_text, numberAt, hfirst]
      exact strtod_here textDoubles hclean hascii h htext hfirst
    · exact hsame
  · exact .elsewhere

end Reading

section Main
variable {D : Type} (doubles : Doubles D)

theorem bsGeolocate_success {response : List UInt8} {p : List Char}
    (h : strstr "\"success\"".toList (byteText (kept response)) = some p) :
    (bsGeolocate doubles (some response)).valid = true ∧
      (bsGeolocate doubles (some response)).lat =
        numberAt doubles (mark "lat".toList) (byteText (kept response)) ∧
      (bsGeolocate doubles (some response)).lon =
        numberAt doubles (mark "lon".toList) (byteText (kept response)) := by
  unfold bsGeolocate
  simp only [h]
  exact ⟨trivial, rfl, rfl⟩

theorem bsGeolocate_failure {response : List UInt8}
    (h : strstr "\"success\"".toList (byteText (kept response)) = none) :
    (bsGeolocate doubles (some response)).valid = false := by
  unfold bsGeolocate
  simp only [h]

/-- A valid record comes from the response, whatever doubles its numerals stand for, exactly if
the word `success` is missing or the first mark of each coordinate leads to the numeral of its
member. -/
theorem valid_position_iff (response : List UInt8) :
    (∀ (D : Type) (doubles : Doubles D), Right doubles response) ↔ Faithful response := by
  unfold Right Faithful FromResponse
  cases hstr : strstr "\"success\"".toList (byteText (kept response)) with
  | none =>
      refine iff_of_true (fun D doubles hvalid => ?_) (.inl rfl)
      rw [bsGeolocate_failure doubles hstr] at hvalid
      cases hvalid
  | some p =>
      have hfound : ∀ (s : Success response) (key t : List Char) (m : Place),
          key ∈ ["lat".toList, "lon".toList] → s.Number key t m →
          (s.Found key t m ↔ numeralAt (mark key) (byteText (kept response)) = some t) := by
        intro s key t m hkey h
        simp only [List.mem_cons, List.not_mem_nil, or_false] at hkey
        obtain rfl | rfl := hkey <;> exact found_iff (by decide) (by decide) h
      constructor
      · intro hright
        obtain ⟨hvalid, hlat, hlon⟩ := bsGeolocate_success textDoubles hstr
        obtain ⟨s, ⟨t, m, hm, ht⟩, u, n, hn, hu⟩ := hright _ textDoubles hvalid
        rw [hlat, numberAt_text] at ht
        rw [hlon, numberAt_text] at hu
        exact .inr ⟨s, ⟨t, m, hm, (hfound s _ t m (by simp) hm).mpr ht⟩, u, n, hn,
          (hfound s _ u n (by simp) hn).mpr hu⟩
      · rintro (hnone | ⟨s, ⟨t, m, hm, ht⟩, u, n, hn, hu⟩) D doubles -
        · cases hnone
        · obtain ⟨-, hlat, hlon⟩ := bsGeolocate_success doubles hstr
          refine ⟨s, ⟨t, m, hm, ?_⟩, u, n, hn, ?_⟩
          · rw [hlat, numberAt_eq, (hfound s _ t m (by simp) hm).mp ht]
            rfl
          · rw [hlon, numberAt_eq, (hfound s _ u n (by simp) hn).mp hu]
            rfl

/-- Numerals with their exact values. -/
def exactDoubles : Doubles (Option ℚ) := ⟨LineTimes.floatValue, some 0⟩

/-- The response `{"status":"success"}`. -/
def bare : List Char := "\x7b\"status\":\"success\"\x7d".toList

/-- A response without coordinates gives the position 0, 0. -/
theorem no_coordinates : ¬ Right exactDoubles (utf8 bare) := by
  intro h
  have hvalid : (bsGeolocate exactDoubles (some (utf8 bare))).valid = true := by decide +kernel
  obtain ⟨s, ⟨t, m, hm, -⟩, -⟩ := h hvalid
  have htext : s.text = bare := utf8_injective s.bytes
  have hkeys : (places bare).map Place.key = ["status".toList] := by decide +kernel
  have hkey : m.key ∈ (places bare).map Place.key :=
    List.mem_map_of_mem (htext ▸ hm.mem)
  rw [hkeys, hm.key_eq] at hkey
  exact absurd hkey (by decide)

end Main

end Iputils.GeoLookup
