import Mathlib.Data.Int.Basic
import Mathlib.Data.List.GetD
import Mathlib.Tactic.SplitIfs
import Mathlib.Tactic.Linarith

/-!
# Byte buffers

A buffer is a list of bytes. Storing a block replaces a contiguous range and
keeps the length, provided the block fits. Integers are written and read in
either byte order; the value of a byte is an integer so that the arithmetic of
C expressions can be carried out on it directly.
-/
set_option autoImplicit false

namespace Iputils.ByteBuffer

/-- Truncation of an integer to a byte. -/
def byteOf (x : ℤ) : UInt8 := UInt8.ofNat (x % 256).toNat

def byteVal (b : UInt8) : ℤ := b.toNat

theorem byteVal_nonneg (b : UInt8) : 0 ≤ byteVal b := Int.natCast_nonneg _

theorem byteVal_le (b : UInt8) : byteVal b ≤ 255 := by
  have h := b.toNat_lt
  unfold byteVal
  omega

@[simp] theorem byteVal_byteOf (x : ℤ) : byteVal (byteOf x) = x % 256 := by
  have h : (x % 256).toNat < 256 := by omega
  simp only [byteVal, byteOf, UInt8.toNat_ofNat', Nat.reducePow]
  omega

@[simp] theorem byteOf_byteVal (b : UInt8) : byteOf (byteVal b) = b := by
  have hlt := b.toNat_lt
  refine UInt8.toNat_inj.mp ?_
  unfold byteOf byteVal
  rw [UInt8.toNat_ofNat']
  omega

@[simp] theorem byteVal_zero : byteVal 0 = 0 := rfl

/-- The two bytes of a 16-bit integer, low byte first. -/
def le16 (x : ℤ) : List UInt8 := [byteOf x, byteOf (x / 256)]

/-- The two bytes of a 16-bit integer in network order. -/
def be16 (x : ℤ) : List UInt8 := [byteOf (x / 256), byteOf x]

/-- The byte at an offset; behind the end of the buffer it is zero. -/
def byteAt (buf : List UInt8) (i : ℕ) : ℤ := byteVal (buf.getD i 0)

def le16At (buf : List UInt8) (i : ℕ) : ℤ := byteAt buf i + 256 * byteAt buf (i + 1)

def be16At (buf : List UInt8) (i : ℕ) : ℤ := 256 * byteAt buf i + byteAt buf (i + 1)

/-- A 32-bit integer in network order. -/
def be32At (buf : List UInt8) (i : ℕ) : ℤ := 65536 * be16At buf i + be16At buf (i + 2)

/-- The eight bytes of a 64-bit integer, low byte first. -/
def le64 (x : ℤ) : List UInt8 :=
  le16 x ++ le16 (x / 65536) ++ le16 (x / 4294967296) ++ le16 (x / 281474976710656)

def le64At (buf : List UInt8) (i : ℕ) : ℤ :=
  le16At buf i + 65536 * le16At buf (i + 2) + 4294967296 * le16At buf (i + 4) +
    281474976710656 * le16At buf (i + 6)

/-- `memcpy` of `n` bytes from an offset. -/
def bytesAt (buf : List UInt8) (off n : ℕ) : List UInt8 :=
  (List.range n).map fun i => buf.getD (off + i) 0

/-- The low byte of a word in memory. -/
theorem byteOf_add_mul (b : UInt8) (x : ℤ) : byteOf (byteVal b + 256 * x) = b := by
  rw [byteOf, Int.add_mul_emod_self_left]
  exact byteOf_byteVal b

/-- The high byte of a word in memory. -/
theorem byteOf_add_mul_div (b : UInt8) (x : ℤ) : byteOf ((byteVal b + 256 * x) / 256) = byteOf x := by
  have h₀ := byteVal_nonneg b
  have h₁ := byteVal_le b
  congr 1
  omega

/-- A 16-bit word and its two bytes are the same memory. -/
theorem le16_le16At (buf : List UInt8) (i : ℕ) : le16 (le16At buf i) = bytesAt buf i 2 := by
  rw [le16, le16At, byteAt, byteOf_add_mul, byteOf_add_mul_div, byteAt, byteOf_byteVal]
  rfl

theorem be16_be16At (buf : List UInt8) (i : ℕ) : be16 (be16At buf i) = bytesAt buf i 2 := by
  rw [be16, be16At, Int.add_comm, byteAt, byteAt, byteOf_add_mul, byteOf_add_mul_div, byteOf_byteVal]
  rfl

theorem byteAt_nonneg (buf : List UInt8) (i : ℕ) : 0 ≤ byteAt buf i := byteVal_nonneg _

theorem byteAt_le (buf : List UInt8) (i : ℕ) : byteAt buf i ≤ 255 := byteVal_le _

theorem le16At_range (buf : List UInt8) (i : ℕ) : 0 ≤ le16At buf i ∧ le16At buf i ≤ 65535 := by
  have h₀ := byteAt_nonneg buf i
  have h₁ := byteAt_nonneg buf (i + 1)
  have h₂ := byteAt_le buf i
  have h₃ := byteAt_le buf (i + 1)
  unfold le16At
  omega

theorem be16At_range (buf : List UInt8) (i : ℕ) : 0 ≤ be16At buf i ∧ be16At buf i ≤ 65535 := by
  have h₀ := byteAt_nonneg buf i
  have h₁ := byteAt_nonneg buf (i + 1)
  have h₂ := byteAt_le buf i
  have h₃ := byteAt_le buf (i + 1)
  unfold be16At
  omega

theorem be32At_nonneg (buf : List UInt8) (i : ℕ) : 0 ≤ be32At buf i := by
  have h₀ := byteAt_nonneg buf i
  have h₁ := byteAt_nonneg buf (i + 1)
  have h₂ := byteAt_nonneg buf (i + 2)
  have h₃ := byteAt_nonneg buf (i + 2 + 1)
  unfold be32At be16At
  omega

/-- Replace the bytes from `off` on by the block `bytes`. -/
def store (buf : List UInt8) (off : ℕ) (bytes : List UInt8) : List UInt8 :=
  buf.take off ++ bytes ++ buf.drop (off + bytes.length)

/-- Storing right behind a prefix replaces what follows it. -/
theorem store_append {pre old post new : List UInt8} (h : old.length = new.length) :
    store (pre ++ (old ++ post)) pre.length new = pre ++ (new ++ post) := by
  simp [store, ← h, List.drop_append]

theorem exists_append_of_le {buf : List UInt8} {n : ℕ} (h : n ≤ buf.length) :
    ∃ pre post, buf = pre ++ post ∧ pre.length = n :=
  ⟨buf.take n, buf.drop n, (List.take_append_drop n buf).symm, by simp [h]⟩

/-- The first eight bytes, as many as a header of ICMP has. -/
theorem exists_eight {buf : List UInt8} (h : 8 ≤ buf.length) :
    ∃ a b c d e f g i post, buf = [a, b, c, d, e, f, g, i] ++ post := by
  obtain ⟨pre, post, rfl, hpre⟩ := exists_append_of_le h
  match pre, hpre with
  | [a, b, c, d, e, f, g, i], _ => exact ⟨a, b, c, d, e, f, g, i, post, rfl⟩

theorem byteAt_append_right (pre buf : List UInt8) (i : ℕ) :
    byteAt (pre ++ buf) (pre.length + i) = byteAt buf i := by
  rw [byteAt, byteAt, List.getD_eq_getElem?_getD, List.getD_eq_getElem?_getD,
    List.getElem?_append_right (Nat.le_add_right _ _), Nat.add_sub_cancel_left]

theorem byteAt_drop (buf : List UInt8) (n i : ℕ) : byteAt (buf.drop n) i = byteAt buf (n + i) := by
  simp [byteAt, List.getD_eq_getElem?_getD]

theorem le16At_drop (buf : List UInt8) (n i : ℕ) : le16At (buf.drop n) i = le16At buf (n + i) := by
  rw [le16At, le16At, byteAt_drop, byteAt_drop, Nat.add_assoc]

theorem be16At_drop (buf : List UInt8) (n i : ℕ) : be16At (buf.drop n) i = be16At buf (n + i) := by
  rw [be16At, be16At, byteAt_drop, byteAt_drop, Nat.add_assoc]

theorem be32At_drop (buf : List UInt8) (n i : ℕ) : be32At (buf.drop n) i = be32At buf (n + i) := by
  rw [be32At, be32At, be16At_drop, be16At_drop, Nat.add_assoc]

theorem bytesAt_drop (buf : List UInt8) (n off k : ℕ) :
    bytesAt (buf.drop n) off k = bytesAt buf (n + off) k := by
  simp [bytesAt, List.getD_eq_getElem?_getD, Nat.add_assoc]

/-- What is written as a 64-bit integer is read back modulo 2^64. -/
theorem le64At_le64 (pre post : List UInt8) (x : ℤ) :
    le64At (pre ++ (le64 x ++ post)) pre.length = x % 18446744073709551616 := by
  have hat : ∀ i, byteAt (pre ++ (le64 x ++ post)) (pre.length + i) = byteAt (le64 x ++ post) i :=
    fun i => byteAt_append_right pre _ i
  have hword : ∀ i, le16At (pre ++ (le64 x ++ post)) (pre.length + i) =
      byteAt (le64 x ++ post) i + 256 * byteAt (le64 x ++ post) (i + 1) := by
    intro i
    rw [le16At, hat, Nat.add_assoc, hat]
  have h₀ : byteAt (le64 x ++ post) 0 = x % 256 := byteVal_byteOf _
  have h₁ : byteAt (le64 x ++ post) 1 = x / 256 % 256 := byteVal_byteOf _
  have h₂ : byteAt (le64 x ++ post) 2 = x / 65536 % 256 := byteVal_byteOf _
  have h₃ : byteAt (le64 x ++ post) 3 = x / 65536 / 256 % 256 := byteVal_byteOf _
  have h₄ : byteAt (le64 x ++ post) 4 = x / 4294967296 % 256 := byteVal_byteOf _
  have h₅ : byteAt (le64 x ++ post) 5 = x / 4294967296 / 256 % 256 := byteVal_byteOf _
  have h₆ : byteAt (le64 x ++ post) 6 = x / 281474976710656 % 256 := byteVal_byteOf _
  have h₇ : byteAt (le64 x ++ post) 7 = x / 281474976710656 / 256 % 256 := byteVal_byteOf _
  have hfirst : le16At (pre ++ (le64 x ++ post)) pre.length = x % 256 + 256 * (x / 256 % 256) := by
    rw [← h₀, ← h₁]
    exact hword 0
  rw [le64At, hfirst, hword, hword, hword, h₂, h₃, h₄, h₅, h₆, h₇]
  omega

theorem length_store {buf bytes : List UInt8} {off : ℕ} (h : off + bytes.length ≤ buf.length) :
    (store buf off bytes).length = buf.length := by
  simp only [store, List.length_append, List.length_take, List.length_drop]
  omega

/-- Storing in front of an offset keeps what lies behind it. -/
theorem drop_store {buf bytes : List UInt8} {off n : ℕ} (hn : off + bytes.length ≤ n)
    (h : off + bytes.length ≤ buf.length) : (store buf off bytes).drop n = buf.drop n := by
  have hpre : (buf.take off ++ bytes).length = off + bytes.length := by
    rw [List.length_append, List.length_take]
    omega
  rw [store, List.drop_append, hpre, List.drop_drop, List.drop_eq_nil_of_le (by omega),
    List.nil_append]
  congr 1
  omega

/-- The two buffers hold the same first `n` bytes. -/
def Agree (n : ℕ) (buf buf' : List UInt8) : Prop := buf.take n = buf'.take n

instance (n : ℕ) (buf buf' : List UInt8) : Decidable (Agree n buf buf') :=
  inferInstanceAs (Decidable (_ = _))

section Agreement
variable {n m k i off : ℕ} {buf buf' : List UInt8}

theorem Agree.mono (h : Agree n buf buf') (hm : m ≤ n) : Agree m buf buf' := by
  have hmin : min m n = m := Nat.min_eq_left hm
  have ht := congrArg (List.take m) h
  rwa [List.take_take, List.take_take, hmin] at ht

theorem Agree.symm (h : Agree n buf buf') : Agree n buf' buf := Eq.symm h

theorem Agree.drop (h : Agree n buf buf') (k : ℕ) : Agree (n - k) (buf.drop k) (buf'.drop k) := by
  have hd := congrArg (List.drop k) h
  rwa [List.drop_take, List.drop_take] at hd

theorem Agree.getD (h : Agree n buf buf') (hi : i < n) : buf.getD i 0 = buf'.getD i 0 := by
  have hat : (buf.take n)[i]? = (buf'.take n)[i]? := by rw [h]
  rw [List.getElem?_take_of_lt hi, List.getElem?_take_of_lt hi] at hat
  rw [List.getD_eq_getElem?_getD, List.getD_eq_getElem?_getD, hat]

theorem Agree.byteAt (h : Agree n buf buf') (hi : i < n) : byteAt buf i = byteAt buf' i :=
  congrArg byteVal (h.getD hi)

theorem Agree.le16At (h : Agree n buf buf') (hi : i + 2 ≤ n) : le16At buf i = le16At buf' i := by
  rw [ByteBuffer.le16At, ByteBuffer.le16At, h.byteAt (by omega), h.byteAt (by omega)]

theorem Agree.be16At (h : Agree n buf buf') (hi : i + 2 ≤ n) : be16At buf i = be16At buf' i := by
  rw [ByteBuffer.be16At, ByteBuffer.be16At, h.byteAt (by omega), h.byteAt (by omega)]

theorem Agree.be32At (h : Agree n buf buf') (hi : i + 4 ≤ n) : be32At buf i = be32At buf' i := by
  rw [ByteBuffer.be32At, ByteBuffer.be32At, h.be16At (by omega), h.be16At (by omega)]

theorem Agree.le64At (h : Agree n buf buf') (hi : i + 8 ≤ n) : le64At buf i = le64At buf' i := by
  rw [ByteBuffer.le64At, ByteBuffer.le64At, h.le16At (by omega), h.le16At (by omega),
    h.le16At (by omega), h.le16At (by omega)]

theorem Agree.bytesAt (h : Agree n buf buf') (hk : off + k ≤ n) :
    bytesAt buf off k = bytesAt buf' off k := by
  apply List.map_congr_left
  intro i hi
  exact h.getD (by have := List.mem_range.mp hi; omega)

end Agreement

theorem getD_bytesAt (buf : List UInt8) (off : ℕ) {n i : ℕ} (h : i < n) :
    (bytesAt buf off n).getD i 0 = buf.getD (off + i) 0 := by
  rw [bytesAt, List.getD_eq_getElem?_getD, List.getElem?_map, List.getElem?_range h]
  rfl

theorem bytesAt_self (buf : List UInt8) : bytesAt buf 0 buf.length = buf := by
  refine List.ext_getElem (by simp [bytesAt]) ?_
  intro i hi hi'
  simp [bytesAt, hi']

/-- A block that stands behind `off` bytes is read as it is. -/
theorem bytesAt_append (pre mid post : List UInt8) {buf : List UInt8} {off n : ℕ}
    (h : buf = pre ++ (mid ++ post)) (hoff : pre.length = off) (hn : mid.length = n) :
    bytesAt buf off n = mid := by
  subst h hoff hn
  refine List.ext_getElem (by simp [bytesAt]) ?_
  intro i hi hi'
  have hat : (pre ++ (mid ++ post)).getD (pre.length + i) 0 = mid.getD i 0 := by
    rw [List.getD_append_right _ _ _ _ (by omega), Nat.add_sub_cancel_left,
      List.getD_append _ _ _ _ hi']
  simp only [bytesAt, List.getElem_map, List.getElem_range, hat]
  exact List.getD_eq_getElem _ _ hi'

theorem be16At_append (pre : List UInt8) (x : ℤ) (post : List UInt8) {buf : List UInt8} {off : ℕ}
    (h : buf = pre ++ (be16 x ++ post)) (hoff : pre.length = off) :
    be16At buf off = x % 65536 := by
  subst h hoff
  have h₀ : byteAt (pre ++ (be16 x ++ post)) pre.length = x / 256 % 256 := by
    simp [byteAt, be16]
  have h₁ : byteAt (pre ++ (be16 x ++ post)) (pre.length + 1) = x % 256 := by
    rw [byteAt_append_right]
    simp [byteAt, be16]
  rw [be16At, h₀, h₁]
  omega

theorem bytesAt_bytesAt (buf : List UInt8) (off : ℕ) {n k m : ℕ} (h : k + m ≤ n) :
    bytesAt (bytesAt buf off n) k m = bytesAt buf (off + k) m := by
  apply List.map_congr_left
  intro i hi
  have hlt := List.mem_range.mp hi
  rw [getD_bytesAt buf off (by omega), Nat.add_assoc]

theorem take_bytesAt (buf : List UInt8) (off : ℕ) {n k : ℕ} (h : k ≤ n) :
    (bytesAt buf off n).take k = bytesAt buf off k := by
  rw [bytesAt, bytesAt, ← List.map_take, List.take_range, Nat.min_eq_left h]

section Stored
variable {buf bytes : List UInt8} {off n i : ℕ}

theorem getD_store_of_lt (h : off ≤ buf.length) (hi : i < off) :
    (store buf off bytes).getD i 0 = buf.getD i 0 := by
  have hlen : (buf.take off).length = off := by
    rw [List.length_take]
    omega
  rw [store, List.append_assoc, List.getD_append _ _ _ _ (by omega), List.getD_eq_getElem?_getD,
    List.getElem?_take_of_lt hi, ← List.getD_eq_getElem?_getD]

theorem getD_store_add (h : off ≤ buf.length) (hi : i < bytes.length) :
    (store buf off bytes).getD (off + i) 0 = bytes.getD i 0 := by
  have hlen : (buf.take off).length = off := by
    rw [List.length_take]
    omega
  rw [store, List.append_assoc, List.getD_append_right _ _ _ _ (by omega), hlen,
    Nat.add_sub_cancel_left, List.getD_append _ _ _ _ hi]

theorem getD_store_of_le (hi : off + bytes.length ≤ i) (h : off + bytes.length ≤ buf.length) :
    (store buf off bytes).getD i 0 = buf.getD i 0 := by
  have hdrop := congrArg List.head? (drop_store hi h)
  rw [List.head?_drop, List.head?_drop] at hdrop
  rw [List.getD_eq_getElem?_getD, hdrop, ← List.getD_eq_getElem?_getD]

theorem store_nil (buf : List UInt8) (off : ℕ) : store buf off [] = buf := by
  rw [store, List.append_nil, List.length_nil, Nat.add_zero, List.take_append_drop]

/-- One byte and then the bytes behind it. -/
theorem store_set (h : i < buf.length) (b : UInt8) (bytes : List UInt8) :
    store (buf.set i b) (i + 1) bytes = store buf i (b :: bytes) := by
  have hlen : (buf.take i).length = i := List.length_take_of_le h.le
  have htake : (buf.set i b).take (i + 1) = buf.take i ++ [b] := by
    rw [List.set_eq_take_append_cons_drop, if_pos h, List.take_append, hlen,
      Nat.add_sub_cancel_left, List.take_take, Nat.min_eq_right (Nat.le_succ i)]
    rfl
  have hdrop : (buf.set i b).drop (i + 1 + bytes.length) = buf.drop (i + (b :: bytes).length) := by
    rw [List.drop_set_of_lt (by omega), List.length_cons, Nat.add_assoc, Nat.add_comm 1]
  rw [store, htake, hdrop, store, List.append_assoc (buf.take i)]
  rfl

/-- A store that follows another one in memory is one with it. -/
theorem store_store {a b : List UInt8} (h : off + (a.length + b.length) ≤ buf.length) :
    store (store buf off a) (off + a.length) b = store buf off (a ++ b) := by
  obtain ⟨pre, rest, rfl, rfl⟩ := exists_append_of_le (show off ≤ buf.length by omega)
  rw [List.length_append] at h
  obtain ⟨old, post, rfl, hold⟩ := exists_append_of_le (show a.length ≤ rest.length by omega)
  rw [List.length_append] at h
  obtain ⟨old', post, rfl, hold'⟩ := exists_append_of_le (show b.length ≤ post.length by omega)
  rw [store_append hold, ← List.append_assoc pre a, ← List.length_append, store_append hold',
    ← List.append_assoc old, store_append (by rw [List.length_append, List.length_append]; omega),
    List.append_assoc, List.append_assoc]

theorem agree_of_getD {buf' : List UInt8} (hlen : buf'.length = buf.length)
    (h : ∀ i, i < n → buf.getD i 0 = buf'.getD i 0) : Agree n buf buf' := by
  have htake : (buf.take n).length = (buf'.take n).length := by
    rw [List.length_take, List.length_take, hlen]
  refine List.ext_getElem htake ?_
  intro i hi hi'
  rw [List.length_take] at hi hi'
  have hat := h i (by omega)
  rw [List.getD_eq_getElem _ _ (by omega), List.getD_eq_getElem _ _ (by omega)] at hat
  rw [List.getElem_take, List.getElem_take]
  exact hat

/-- Storing keeps the first `n` bytes if the block begins with those it replaces. -/
theorem agree_store (hfit : off + bytes.length ≤ buf.length) (hn : n ≤ off + bytes.length)
    (h : bytesAt buf off (n - off) = bytes.take (n - off)) : Agree n buf (store buf off bytes) := by
  refine agree_of_getD (length_store hfit) ?_
  intro i hi
  by_cases hoff : i < off
  · rw [getD_store_of_lt (by omega) hoff]
  · obtain ⟨j, rfl⟩ := Nat.exists_eq_add_of_le (Nat.not_lt.mp hoff)
    have hj : j < n - off := by omega
    rw [getD_store_add (by omega) (by omega), ← getD_bytesAt buf off hj, h,
      List.getD_eq_getElem?_getD, List.getElem?_take_of_lt hj, ← List.getD_eq_getElem?_getD]

/-- A stored block is read back. -/
theorem bytesAt_store (h : off ≤ buf.length) {k m : ℕ} (hk : k + m ≤ bytes.length) :
    bytesAt (store buf off bytes) (off + k) m = bytesAt bytes k m := by
  apply List.map_congr_left
  intro i hi
  have hlt := List.mem_range.mp hi
  rw [Nat.add_assoc, getD_store_add h (by omega)]

/-- A block that a store does not touch. -/
theorem bytesAt_store_of_disjoint {k m : ℕ} (h : off + bytes.length ≤ buf.length)
    (hk : k + m ≤ off ∨ off + bytes.length ≤ k) :
    bytesAt (store buf off bytes) k m = bytesAt buf k m := by
  apply List.map_congr_left
  intro i hi
  have hlt := List.mem_range.mp hi
  rcases hk with hbefore | hbehind
  · exact getD_store_of_lt (by omega) (by omega)
  · exact getD_store_of_le (by omega) h

theorem byteAt_store (h : off ≤ buf.length) (hi : i < bytes.length) :
    byteAt (store buf off bytes) (off + i) = byteAt bytes i := by
  rw [byteAt, byteAt, getD_store_add h hi]

end Stored

end Iputils.ByteBuffer
