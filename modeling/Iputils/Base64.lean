import Mathlib.Data.List.Basic
import Mathlib.Data.Fintype.Basic

/-!
# Base64

The encoding of RFC 4648 with padding, and a decoder that turns every four characters into
three bytes and reads the padding as zero bits. What the decoder gives for an encoded text
is the bytes with zeros behind them; the padding says how many.
-/
set_option autoImplicit false

namespace Iputils.Base64

def alphabet : List Char :=
  "ABCDEFGHIJKLMNOPQRSTUVWXYZabcdefghijklmnopqrstuvwxyz0123456789+/".toList

def digit (n : ℕ) : Char := alphabet.getD n 'A'

/-- The six bits of a character; those of the padding are zero. -/
def value (c : Char) : Option ℕ := if c = '=' then some 0 else alphabet.idxOf? c

def word (a b c : UInt8) : ℕ := a.toNat * 65536 + b.toNat * 256 + c.toNat

def digits (v : ℕ) : List Char :=
  [digit (v / 262144), digit (v / 4096 % 64), digit (v / 64 % 64), digit (v % 64)]

def encode : List UInt8 → List Char
  | [] => []
  | [a] => (digits (word a 0 0)).take 2 ++ ['=', '=']
  | [a, b] => (digits (word a b 0)).take 3 ++ ['=']
  | a :: b :: c :: bs => digits (word a b c) ++ encode bs

def bytes (v : ℕ) : List UInt8 := [UInt8.ofNat (v / 65536), UInt8.ofNat (v / 256), UInt8.ofNat v]

def decodeBlock : List Char → Option (List UInt8)
  | [] => some []
  | w :: x :: y :: z :: s => do
      let v := (← value w) * 262144 + (← value x) * 4096 + (← value y) * 64 + (← value z)
      some (bytes v ++ (← decodeBlock s))
  | _ => none

/-- The zeros that a decoder adds. -/
def padding (n : ℕ) : ℕ := (3 - n % 3) % 3

example : encode [77, 97, 110, 33] = "TWFuIQ==".toList := by decide
example : decodeBlock "TWFuIQ==".toList = some [77, 97, 110, 33, 0, 0] := by decide

section Digits

theorem value_digit (n : Fin 64) : value (digit n) = some n.val := by
  revert n
  decide +kernel

theorem digit_plain (n : Fin 64) :
    digit n ≠ '=' ∧ digit n ≠ '"' ∧ digit n ≠ '\\' ∧ 0x20 ≤ (digit n).toNat := by
  revert n
  decide +kernel

theorem word_lt (a b c : UInt8) : word a b c < 16777216 := by
  have ha := a.toNat_lt
  have hb := b.toNat_lt
  have hc := c.toNat_lt
  unfold word
  omega

theorem bytes_word (a b c : UInt8) : bytes (word a b c) = [a, b, c] := by
  have ha := a.toNat_lt
  have hb := b.toNat_lt
  have hc := c.toNat_lt
  have hhigh : UInt8.ofNat (word a b c / 65536) = a := by
    apply UInt8.toNat_inj.mp
    rw [UInt8.toNat_ofNat']
    unfold word
    omega
  have hmid : UInt8.ofNat (word a b c / 256) = b := by
    apply UInt8.toNat_inj.mp
    rw [UInt8.toNat_ofNat']
    unfold word
    omega
  have hlow : UInt8.ofNat (word a b c) = c := by
    apply UInt8.toNat_inj.mp
    rw [UInt8.toNat_ofNat']
    unfold word
    omega
  rw [bytes, hhigh, hmid, hlow]

theorem value_digit_of_lt {n : ℕ} (h : n < 64) : value (digit n) = some n := value_digit ⟨n, h⟩

/-- Four digits give back what they were made of. -/
theorem decode_digits {v : ℕ} (hv : v < 16777216) (s : List Char) :
    decodeBlock (digits v ++ s) = (decodeBlock s).map fun t => bytes v ++ t := by
  have hw : value (digit (v / 262144)) = some (v / 262144) := value_digit_of_lt (by omega)
  have hx : value (digit (v / 4096 % 64)) = some (v / 4096 % 64) := value_digit_of_lt (by omega)
  have hy : value (digit (v / 64 % 64)) = some (v / 64 % 64) := value_digit_of_lt (by omega)
  have hz : value (digit (v % 64)) = some (v % 64) := value_digit_of_lt (by omega)
  have hsum : v / 262144 * 262144 + v / 4096 % 64 * 4096 + v / 64 % 64 * 64 + v % 64 = v := by
    omega
  simp only [digits, List.cons_append, List.nil_append, decodeBlock, hw, hx, hy, hz,
    Option.bind_eq_bind, Option.bind_some, hsum]
  cases decodeBlock s <;> rfl

end Digits

section RoundTrip

/-- Padding in the place of digits that are zero. -/
theorem decode_two (a : UInt8) :
    decodeBlock ((digits (word a 0 0)).take 2 ++ ['=', '=']) = some [a, 0, 0] := by
  have ha := a.toNat_lt
  have hv : word a 0 0 = a.toNat * 65536 := by simp [word]
  have hw : value (digit (word a 0 0 / 262144)) = some (word a 0 0 / 262144) :=
    value_digit_of_lt (by omega)
  have hx : value (digit (word a 0 0 / 4096 % 64)) = some (word a 0 0 / 4096 % 64) :=
    value_digit_of_lt (by omega)
  have hpad : value '=' = some 0 := rfl
  have hsum : word a 0 0 / 262144 * 262144 + word a 0 0 / 4096 % 64 * 4096 = word a 0 0 := by
    omega
  simp only [digits, List.take_succ_cons, List.take_zero, List.cons_append, List.nil_append,
    decodeBlock, hw, hx, hpad, Option.bind_eq_bind, Option.bind_some, Nat.zero_mul, Nat.add_zero,
    hsum, bytes_word, List.append_nil]

theorem decode_three (a b : UInt8) :
    decodeBlock ((digits (word a b 0)).take 3 ++ ['=']) = some [a, b, 0] := by
  have ha := a.toNat_lt
  have hb := b.toNat_lt
  have hv : word a b 0 = a.toNat * 65536 + b.toNat * 256 := by simp [word]
  have hw : value (digit (word a b 0 / 262144)) = some (word a b 0 / 262144) :=
    value_digit_of_lt (by omega)
  have hx : value (digit (word a b 0 / 4096 % 64)) = some (word a b 0 / 4096 % 64) :=
    value_digit_of_lt (by omega)
  have hy : value (digit (word a b 0 / 64 % 64)) = some (word a b 0 / 64 % 64) :=
    value_digit_of_lt (by omega)
  have hpad : value '=' = some 0 := rfl
  have hsum : word a b 0 / 262144 * 262144 + word a b 0 / 4096 % 64 * 4096 +
      word a b 0 / 64 % 64 * 64 = word a b 0 := by omega
  simp only [digits, List.take_succ_cons, List.take_zero, List.cons_append, List.nil_append,
    decodeBlock, hw, hx, hy, hpad, Option.bind_eq_bind, Option.bind_some, Nat.add_zero, hsum,
    bytes_word, List.append_nil]

/-- The bytes come back with zeros behind them. -/
theorem decode_encode (bs : List UInt8) :
    decodeBlock (encode bs) = some (bs ++ List.replicate (padding bs.length) 0) := by
  induction bs using encode.induct with
  | case1 => rfl
  | case2 a => exact decode_two a
  | case3 a b => exact decode_three a b
  | case4 a b c bs ih =>
      have hpad : padding (a :: b :: c :: bs).length = padding bs.length := by
        simp only [List.length_cons, padding]
        omega
      rw [encode, decode_digits (word_lt a b c), ih, hpad, Option.map_some, bytes_word]
      rfl

theorem length_encode (bs : List UInt8) : (encode bs).length = 4 * ((bs.length + 2) / 3) := by
  induction bs using encode.induct with
  | case1 => rfl
  | case2 a => simp [encode, digits]
  | case3 a b => simp [encode, digits]
  | case4 a b c bs ih =>
      rw [encode, List.length_append, ih]
      simp only [digits, List.length_cons, List.length_nil]
      omega

theorem mem_digits {v : ℕ} {c : Char} (hv : v < 16777216) (h : c ∈ digits v) :
    ∃ n : Fin 64, c = digit n := by
  simp only [digits, List.mem_cons, List.not_mem_nil, or_false] at h
  rcases h with rfl | rfl | rfl | rfl
  · exact ⟨⟨v / 262144, by omega⟩, rfl⟩
  · exact ⟨⟨v / 4096 % 64, by omega⟩, rfl⟩
  · exact ⟨⟨v / 64 % 64, by omega⟩, rfl⟩
  · exact ⟨⟨v % 64, by omega⟩, rfl⟩

/-- Every character is a digit or padding. -/
theorem mem_encode {bs : List UInt8} {c : Char} (h : c ∈ encode bs) :
    c = '=' ∨ ∃ n : Fin 64, c = digit n := by
  induction bs using encode.induct with
  | case1 => cases h
  | case2 a =>
      rcases List.mem_append.mp h with h | h
      · exact Or.inr (mem_digits (word_lt _ _ _) (List.mem_of_mem_take h))
      · exact Or.inl (by simpa using h)
  | case3 a b =>
      rcases List.mem_append.mp h with h | h
      · exact Or.inr (mem_digits (word_lt _ _ _) (List.mem_of_mem_take h))
      · exact Or.inl (by simpa using h)
  | case4 a b c bs ih =>
      rcases List.mem_append.mp h with h | h
      · exact Or.inr (mem_digits (word_lt _ _ _) h)
      · exact ih h

/-- An encoded text can stand between quotes. -/
theorem encode_plain {bs : List UInt8} {c : Char} (h : c ∈ encode bs) :
    c ≠ '"' ∧ c ≠ '\\' ∧ 0x20 ≤ c.toNat := by
  rcases mem_encode h with rfl | ⟨n, rfl⟩
  · decide
  · exact (digit_plain n).2

end RoundTrip

section Padding

/-- The padding among the last two characters. -/
def pads (s : List Char) : ℕ :=
  (if s.getLast? = some '=' then 1 else 0) + if s.dropLast.getLast? = some '=' then 1 else 0

theorem pads_append (s : List Char) {t : List Char} (ht : 2 ≤ t.length) :
    pads (s ++ t) = pads t := by
  have hne : t ≠ [] := by
    rintro rfl
    simp at ht
  have hne' : t.dropLast ≠ [] := by
    rw [Ne, ← List.length_eq_zero_iff, List.length_dropLast]
    omega
  unfold pads
  rw [List.dropLast_append_of_ne_nil hne, List.getLast?_append_of_ne_nil _ hne,
    List.getLast?_append_of_ne_nil _ hne']

theorem pads_digits (v : ℕ) : pads (digits v) = 0 := by
  have hy := (digit_plain ⟨v / 64 % 64, by omega⟩).1
  have hz := (digit_plain ⟨v % 64, by omega⟩).1
  simp only at hy hz
  simp [pads, digits, hy, hz]

/-- The padding of an encoded text is what the decoder adds. -/
theorem pads_encode (bs : List UInt8) : pads (encode bs) = padding bs.length := by
  induction bs using encode.induct with
  | case1 => rfl
  | case2 a => rfl
  | case3 a b =>
      have hy := (digit_plain ⟨word a b 0 / 64 % 64, by omega⟩).1
      simp only at hy
      simp [encode, pads, digits, hy, padding]
  | case4 a b c bs ih =>
      have hpad : padding (a :: b :: c :: bs).length = padding bs.length := by
        simp only [List.length_cons, padding]
        omega
      rw [encode, hpad]
      cases bs with
      | nil => rw [encode, List.append_nil, pads_digits]; rfl
      | cons d bs =>
          rw [pads_append _ (by rw [length_encode, List.length_cons]; omega), ih]

end Padding

end Iputils.Base64
