import Mathlib.Data.List.Basic
import Mathlib.Tactic.SplitIfs
import Mathlib.Tactic.Linarith

/-!
# Texts as bytes

The UTF-8 encoding of lists of characters. A byte below 128 stands for a character of
its own wherever it occurs, so that an encoded text can be cut at such bytes and the
pieces are encoded texts again. No encoded text is the beginning of another one, unless
the texts are related in the same way.
-/
set_option autoImplicit false

namespace Iputils.Utf8Text

/-- The bytes of a text. -/
def utf8 (s : List Char) : List UInt8 := s.flatMap String.utf8EncodeChar

@[simp] theorem utf8_nil : utf8 [] = [] := rfl

theorem utf8_cons (c : Char) (s : List Char) : utf8 (c :: s) = String.utf8EncodeChar c ++ utf8 s :=
  List.flatMap_cons

@[simp] theorem utf8_append (s t : List Char) : utf8 (s ++ t) = utf8 s ++ utf8 t :=
  List.flatMap_append

/-- The byte of a character with a number below 256. -/
def charByte (c : Char) : UInt8 := UInt8.ofNat c.toNat

def Ascii (c : Char) : Prop := c.toNat < 128

instance (c : Char) : Decidable (Ascii c) := inferInstanceAs (Decidable (_ < _))

instance (s : List Char) : Decidable (∀ c ∈ s, Ascii c) := List.decidableBAll Ascii s

theorem utf8EncodeChar_ascii {c : Char} (h : Ascii c) : String.utf8EncodeChar c = [charByte c] := by
  have hle : c.val.toNat ≤ 0x7f := Nat.lt_succ_iff.mp h
  unfold String.utf8EncodeChar
  exact if_pos hle

theorem utf8_ascii {s : List Char} (h : ∀ c ∈ s, Ascii c) : utf8 s = s.map charByte := by
  induction s with
  | nil => rfl
  | cons c s ih =>
      rw [utf8_cons, utf8EncodeChar_ascii (h c List.mem_cons_self),
        ih fun d hd => h d (List.mem_cons_of_mem c hd)]
      rfl

theorem toNat_byte {n : ℕ} (h₀ : 128 ≤ n) (h₁ : n < 256) : 128 ≤ (UInt8.ofNat n).toNat := by
  rw [UInt8.toNat_ofNat', Nat.mod_eq_of_lt h₁]
  exact h₀

/-- Other characters have no small bytes. -/
theorem utf8EncodeChar_large {c : Char} (h : ¬ Ascii c) :
    ∀ b ∈ String.utf8EncodeChar c, 128 ≤ b.toNat := by
  have hlt : ¬ c.val.toNat ≤ 0x7f := fun hle => h (Nat.lt_succ_of_le hle)
  unfold String.utf8EncodeChar
  dsimp only
  rw [if_neg hlt]
  intro b hb
  split_ifs at hb
  · simp only [List.mem_cons, List.not_mem_nil, or_false] at hb
    obtain rfl | rfl := hb <;> exact toNat_byte (by omega) (by omega)
  · simp only [List.mem_cons, List.not_mem_nil, or_false] at hb
    obtain rfl | rfl | rfl := hb <;> exact toNat_byte (by omega) (by omega)
  · simp only [List.mem_cons, List.not_mem_nil, or_false] at hb
    obtain rfl | rfl | rfl | rfl := hb <;> exact toNat_byte (by omega) (by omega)

theorem charByte_toNat {c : Char} (h : Ascii c) : (charByte c).toNat = c.toNat := by
  unfold charByte
  rw [UInt8.toNat_ofNat', Nat.mod_eq_of_lt]
  unfold Ascii at h
  omega

theorem toNat_ofNat_byte {n : ℕ} (h : n < 256) : (Char.ofNat n).toNat = n := by
  have hvalid : n.isValidChar := .inl (by omega)
  unfold Char.ofNat
  rw [dif_pos hvalid]
  rfl

theorem charByte_ofNat (b : UInt8) : charByte (Char.ofNat b.toNat) = b := by
  have hlt := b.toNat_lt
  unfold charByte
  rw [toNat_ofNat_byte hlt, UInt8.ofNat_toNat]

/-- Bytes that are taken for characters are got back. -/
theorem map_charByte (u : List UInt8) : (u.map fun b => Char.ofNat b.toNat).map charByte = u := by
  rw [List.map_map]
  exact (List.map_congr_left fun b _ => charByte_ofNat b).trans (List.map_id _)

/-- An encoded text is cut at a small byte. -/
theorem utf8_split {s : List Char} {u w : List UInt8} {c : Char} (hc : Ascii c)
    (h : utf8 s = u ++ charByte c :: w) :
    ∃ a b, s = a ++ c :: b ∧ utf8 a = u ∧ utf8 b = w := by
  induction s generalizing u with
  | nil => simp at h
  | cons d s ih =>
      rw [utf8_cons] at h
      by_cases hd : Ascii d
      · rw [utf8EncodeChar_ascii hd, List.singleton_append] at h
        cases u with
        | nil =>
            obtain ⟨hbyte, hrest⟩ := List.cons.inj h
            have hchar := congrArg UInt8.toNat hbyte
            rw [charByte_toNat hd, charByte_toNat hc] at hchar
            exact ⟨[], s, by rw [Char.toNat_inj.mp hchar, List.nil_append], rfl, hrest⟩
        | cons x u =>
            obtain ⟨hbyte, hrest⟩ := List.cons.inj h
            obtain ⟨a, b, rfl, ha, hb⟩ := ih hrest
            refine ⟨d :: a, b, rfl, ?_, hb⟩
            rw [utf8_cons, utf8EncodeChar_ascii hd, ha, List.singleton_append, hbyte]
      · -- the small byte lies behind the character
        have hlarge := utf8EncodeChar_large hd
        obtain ⟨v, hu, hrest⟩ | ⟨v, hv, hrest⟩ := List.append_eq_append_iff.mp h
        · obtain ⟨a, b, rfl, ha, hb⟩ := ih hrest
          refine ⟨d :: a, b, rfl, ?_, hb⟩
          rw [utf8_cons, ha, hu]
        · cases v with
          | nil =>
              rw [List.append_nil] at hv
              rw [List.nil_append] at hrest
              obtain ⟨a, b, rfl, ha, hb⟩ := ih (u := []) hrest.symm
              refine ⟨d :: a, b, rfl, ?_, hb⟩
              rw [utf8_cons, ha, List.append_nil, hv]
          | cons x v =>
              obtain ⟨rfl, -⟩ := List.cons.inj hrest
              have hx := hlarge (charByte c) (by rw [hv]; simp)
              rw [charByte_toNat hc] at hx
              exact absurd hc (Nat.not_lt.mpr hx)

/-- An encoded text begins with another one only if the text does. -/
theorem utf8_front {s t : List Char} {w : List UInt8} (h : utf8 s ++ w = utf8 t) :
    ∃ d, t = s ++ d ∧ utf8 d = w := by
  have hbytes : s.utf8Encode ++ w.toByteArray = t.utf8Encode := by
    change (utf8 s).toByteArray ++ w.toByteArray = (utf8 t).toByteArray
    rw [← h, List.toByteArray_append]
  obtain ⟨d, rfl⟩ := List.isPrefix_of_utf8Encode_append_eq_utf8Encode _ hbytes
  refine ⟨d, rfl, ?_⟩
  rw [utf8_append] at h
  exact (List.append_cancel_left h).symm

theorem utf8_injective {s t : List Char} (h : utf8 s = utf8 t) : s = t := by
  obtain ⟨d, ht, hd⟩ := utf8_front (s := s) (t := t) (w := []) (by rw [List.append_nil, h])
  cases d with
  | nil => rw [ht, List.append_nil]
  | cons c d =>
      rw [utf8_cons] at hd
      exact absurd (List.append_eq_nil_iff.mp hd).1 String.utf8EncodeChar_ne_nil

/-- A small byte of an encoded text is one of its characters. -/
theorem mem_of_charByte {s : List Char} {c : Char} (hc : Ascii c) (h : charByte c ∈ utf8 s) :
    c ∈ s := by
  obtain ⟨u, w, huw⟩ := List.append_of_mem h
  obtain ⟨a, b, rfl, -, -⟩ := utf8_split hc huw
  exact List.mem_append_right a List.mem_cons_self

/-- Small bytes in front of an encoded text are its first characters. -/
theorem utf8_ascii_append {s t : List Char} {w : List UInt8} (hs : ∀ c ∈ s, Ascii c)
    (h : utf8 t = s.map charByte ++ w) : ∃ d, t = s ++ d ∧ utf8 d = w := by
  rw [← utf8_ascii hs] at h
  exact utf8_front h.symm

end Iputils.Utf8Text
