import Iputils.BlockStream
import Iputils.Md5

/-!
# The digest of a message in pieces

What the message digest is for: the message, a bit of 1, zeros and the length in bits
fill whole blocks, and the transformation goes over these one after another. A context
that has read the message in pieces, however it was cut, holds the registers after its
whole blocks, the rest of it in the array and the length in the two counters.
-/
set_option autoImplicit false

namespace Iputils.Md5Stream
open BlockStream ByteBuffer Md5

/-- The registers before the first block. -/
def initial : Words := iputilsMd5Init.buf

/-- The message and its padding. -/
def padded (m : List UInt8) : List UInt8 :=
  m ++ 0x80 :: (List.replicate ((119 - m.length % 64) % 64) 0 ++ le64 (8 * m.length))

def output (w : Words) : List UInt8 := le32 w.a ++ le32 w.b ++ le32 w.c ++ le32 w.d

/-- The digest of a message. -/
def md5 (m : List UInt8) : List UInt8 := output (whole 64 iputilsMd5Transform initial (padded m))

/-- Nothing of the padded message lies behind its whole blocks. -/
theorem rest_padded (m : List UInt8) : rest 64 (padded m) = [] := by
  have hbits : (le64 (8 * m.length)).length = 8 := rfl
  refine List.eq_nil_of_length_eq_zero ?_
  rw [length_rest, padded, List.length_append, List.length_cons, List.length_append,
    List.length_replicate, hbits]
  omega

section Counters

/-- The two counters hold a number of bits modulo 2^64. -/
def Counted (lo hi : UInt32) (n : ℕ) : Prop :=
  lo.toNat + 4294967296 * hi.toNat = 8 * n % 18446744073709551616

/-- The count of bits with the carry from the low word to the high one. -/
theorem Counted.add {lo hi len : UInt32} {n k : ℕ} (h : Counted lo hi n) (hk : len.toNat = k) :
    Counted (lo + (len <<< 3))
      (hi + (if lo + (len <<< 3) < lo then (1 : UInt32) else 0) + (len >>> 29)) (n + k) := by
  have hlo := lo.toNat_lt
  have hhi := hi.toNat_lt
  have hlen := len.toNat_lt
  have hshift : (len <<< 3).toNat = 8 * k % 4294967296 := by
    rw [UInt32.toNat_shiftLeft, hk]
    simp [Nat.shiftLeft_eq, Nat.mul_comm]
  have hhigh : (len >>> 29).toNat = k / 536870912 := by
    rw [UInt32.toNat_shiftRight, hk]
    simp [Nat.shiftRight_eq_div_pow]
  have hsum : (lo + (len <<< 3)).toNat = (lo.toNat + 8 * k % 4294967296) % 4294967296 := by
    rw [UInt32.toNat_add, hshift]
  unfold Counted at h ⊢
  rw [hsum, UInt32.toNat_add (hi + _), hhigh, UInt32.toNat_add hi]
  split_ifs with hcarry
  · rw [UInt32.lt_iff_toNat_lt, hsum] at hcarry
    rw [UInt32.toNat_one]
    omega
  · rw [UInt32.lt_iff_toNat_lt, hsum] at hcarry
    rw [UInt32.toNat_zero]
    omega

/-- The low counter says how many bytes stand in the array. -/
theorem Counted.pending {lo hi : UInt32} {n : ℕ} (h : Counted lo hi n) :
    ((lo >>> 3) &&& 0x3f).toNat = n % 64 := by
  have hlo := lo.toNat_lt
  unfold Counted at h
  have hand : ((lo >>> 3) &&& 0x3f).toNat = lo.toNat / 8 % 64 := by
    rw [UInt32.toNat_and, UInt32.toNat_shiftRight]
    exact (Nat.and_two_pow_sub_one_eq_mod _ 6).trans (by simp [Nat.shiftRight_eq_div_pow])
  rw [hand]
  omega

/-- The bytes of a shifted word. -/
theorem toUInt8_shiftRight (x k : UInt32) (i : ℕ) (hk : k.toNat = i) (hi : i < 32) {y : ℤ}
    (hy : ((x.toNat / 2 ^ i : ℕ) : ℤ) % 256 = y % 256) : (x >>> k).toUInt8 = byteOf y := by
  refine UInt8.toNat_inj.mp ?_
  rw [UInt32.toNat_toUInt8, UInt32.toNat_shiftRight, hk, Nat.mod_eq_of_lt hi,
    Nat.shiftRight_eq_div_pow, byteOf, UInt8.toNat_ofNat', ← hy]
  omega

theorem le32_append {lo hi : UInt32} {n : ℕ} (h : Counted lo hi n) :
    le32 lo ++ le32 hi = le64 (8 * n) := by
  have hlo := lo.toNat_lt
  have hhi := hi.toNat_lt
  unfold Counted at h
  have hzero : ∀ x : UInt32, x.toUInt8 = (x >>> 0).toUInt8 := fun x => by rw [UInt32.shiftRight_zero]
  simp only [le32, le64, le16, List.cons_append, List.nil_append, List.cons.injEq, and_true]
  rw [hzero lo, hzero hi]
  refine ⟨?_, ?_, ?_, ?_, ?_, ?_, ?_, ?_⟩
  · exact toUInt8_shiftRight lo 0 0 rfl (by decide) (by omega)
  · exact toUInt8_shiftRight lo 8 8 rfl (by decide) (by omega)
  · exact toUInt8_shiftRight lo 16 16 rfl (by decide) (by omega)
  · exact toUInt8_shiftRight lo 24 24 rfl (by decide) (by omega)
  · exact toUInt8_shiftRight hi 0 0 rfl (by decide) (by omega)
  · exact toUInt8_shiftRight hi 8 8 rfl (by decide) (by omega)
  · exact toUInt8_shiftRight hi 16 16 rfl (by decide) (by omega)
  · exact toUInt8_shiftRight hi 24 24 rfl (by decide) (by omega)

end Counters

section Contexts
variable {ctx : Md5Context} {m : List UInt8}

/-- The context has read the message. -/
structure Read (ctx : Md5Context) (m : List UInt8) : Prop where
  buf : ctx.buf = whole 64 iputilsMd5Transform initial m
  length : ctx.block.length = 64
  block : ctx.block.take (m.length % 64) = rest 64 m
  bits : Counted ctx.bits0 ctx.bits1 m.length

theorem read_nil : Read iputilsMd5Init [] where
  buf := rfl
  length := rfl
  block := rfl
  bits := rfl

/-- What is stored behind the first bytes of an array stands behind these. -/
theorem take_store {buf bytes : List UInt8} {off : ℕ} (h : off + bytes.length ≤ buf.length) :
    (store buf off bytes).take (off + bytes.length) = buf.take off ++ bytes := by
  have hlen : (buf.take off ++ bytes).length = off + bytes.length := by
    rw [List.length_append, List.length_take]
    omega
  rw [store, List.take_append_of_le_length hlen.ge, List.take_of_length_le hlen.le]

theorem store_full {buf bytes : List UInt8} {off : ℕ} (h : off + bytes.length = buf.length) :
    store buf off bytes = buf.take off ++ bytes := by
  rw [← take_store h.le, h, ← length_store h.le, List.take_length]

/-- Two stores, one behind the other, up to the end. -/
theorem store_store_full {buf a b : List UInt8} {off k : ℕ} (hk : off + a.length = k)
    (h : k + b.length = buf.length) : store (store buf off a) k b = buf.take off ++ (a ++ b) := by
  have hfit : off + (a ++ b).length = buf.length := by
    rw [List.length_append]
    omega
  rw [← store_full hfit, ← hk]
  exact store_store (by omega)

/-- What the loop over whole blocks leaves. -/
structure Absorbed (ctx ctx' : Md5Context) (l : List UInt8) : Prop where
  buf : ctx'.buf = whole 64 iputilsMd5Transform ctx.buf l
  length : ctx'.block.length = 64
  block : ctx'.block.take (l.length % 64) = rest 64 l
  bits0 : ctx'.bits0 = ctx.bits0
  bits1 : ctx'.bits1 = ctx.bits1

theorem absorbed (ctx : Md5Context) (l : List UInt8) (h : ctx.block.length = 64) :
    Absorbed ctx (absorb (l.length / 64) ctx l) l := by
  generalize hk : l.length / 64 = k
  induction k generalizing ctx l with
  | zero =>
    have hlt : l.length < 64 := by omega
    have hfit : 0 + l.length ≤ ctx.block.length := by omega
    have htake := take_store hfit
    rw [Nat.zero_add, List.take_zero, List.nil_append] at htake
    exact
      { buf := (whole_of_lt hlt).symm
        length := (length_store hfit).trans h
        block := by rw [Nat.mod_eq_of_lt hlt, rest_of_lt hlt]; exact htake
        bits0 := rfl
        bits1 := rfl }
  | succ k ih =>
    have hle : 64 ≤ l.length := by omega
    have hdrop : (l.drop 64).length = l.length - 64 := List.length_drop
    have hnext := ih { ctx with buf := iputilsMd5Transform ctx.buf (l.take 64), block := l.take 64 }
      (l.drop 64) (List.length_take_of_le hle) (by omega)
    have hmod : l.length % 64 = (l.drop 64).length % 64 := by omega
    exact
      { buf := hnext.buf.trans (whole_of_le (by decide) hle).symm
        length := hnext.length
        block := by rw [hmod, rest_of_le (by decide) hle]; exact hnext.block
        bits0 := hnext.bits0
        bits1 := hnext.bits1 }

/-- The bytes of the array and those of the update, as the loop goes over them. -/
theorem Read.of_absorbed (ctx₀ : Md5Context) {ctx' : Md5Context} {bytes : List UInt8}
    (hbuf : ctx₀.buf = whole 64 iputilsMd5Transform initial m)
    (hbits : Counted ctx₀.bits0 ctx₀.bits1 (m ++ bytes).length)
    (h : Absorbed ctx₀ ctx' (rest 64 m ++ bytes)) : Read ctx' (m ++ bytes) where
  buf := by rw [h.buf, hbuf, ← whole_append (by decide)]
  length := h.length
  block := by
    have hmod : (m ++ bytes).length % 64 = (rest 64 m ++ bytes).length % 64 := by
      rw [List.length_append, List.length_append, length_rest, Nat.mod_add_mod]
    rw [hmod, rest_append (by decide)]
    exact h.block
  bits := by rw [h.bits0, h.bits1]; exact hbits

/-- A block whose first bytes were in the array goes first. -/
theorem Absorbed.of_block {ctx₀ ctx' : Md5Context} {p bytes : List UInt8} {block : List UInt8}
    (hp : p.length ≤ 64) (hb : 64 - p.length ≤ bytes.length)
    (hblock : block = p ++ bytes.take (64 - p.length))
    (h : Absorbed { ctx₀ with buf := iputilsMd5Transform ctx₀.buf block, block := block } ctx'
      (bytes.drop (64 - p.length))) : Absorbed ctx₀ ctx' (p ++ bytes) := by
  have hle : 64 ≤ (p ++ bytes).length := by
    rw [List.length_append]
    omega
  have hdrop : (p ++ bytes).drop 64 = bytes.drop (64 - p.length) := by
    rw [List.drop_append, List.drop_of_length_le hp, List.nil_append]
  have hmod : (p ++ bytes).length % 64 = (bytes.drop (64 - p.length)).length % 64 := by
    rw [List.length_append, List.length_drop]
    omega
  exact
    { buf := by
        rw [h.buf, whole_of_le (by decide) hle, hdrop, List.take_append, List.take_of_length_le hp,
          ← hblock]
      length := h.length
      block := by
        rw [hmod, rest_of_le (by decide) hle, hdrop]
        exact h.block
      bits0 := h.bits0
      bits1 := h.bits1 }

/-- The context with the bytes of an update counted. -/
def counted (ctx : Md5Context) (bytes : List UInt8) : Md5Context :=
  let len := UInt32.ofNat bytes.length
  let carry : UInt32 := if ctx.bits0 + (len <<< 3) < ctx.bits0 then 1 else 0
  { ctx with bits0 := ctx.bits0 + (len <<< 3), bits1 := ctx.bits1 + carry + (len >>> 29) }

theorem Read.counted (h : Read ctx m) {bytes : List UInt8} (hb : bytes.length < 2 ^ 32) :
    Counted (counted ctx bytes).bits0 (counted ctx bytes).bits1 (m ++ bytes).length := by
  rw [List.length_append]
  exact h.bits.add (UInt32.toNat_ofNat_of_lt' hb)

/-- The three ways of an update, with the number of bytes in the array read off the message. -/
theorem Read.update_eq (h : Read ctx m) (bytes : List UInt8) :
    iputilsMd5Update ctx bytes =
      if m.length % 64 = 0 then absorb (bytes.length / 64) (Md5Stream.counted ctx bytes) bytes
      else if bytes.length < 64 - m.length % 64 then
        { Md5Stream.counted ctx bytes with block := store ctx.block (m.length % 64) bytes }
      else
        let block := store ctx.block (m.length % 64) (bytes.take (64 - m.length % 64))
        let bytes' := bytes.drop (64 - m.length % 64)
        absorb (bytes'.length / 64)
          { Md5Stream.counted ctx bytes with buf := iputilsMd5Transform ctx.buf block, block := block }
          bytes' := by
  rw [← h.bits.pending]
  rfl

/-- An update reads on, whichever of its three ways it takes. -/
theorem Read.update (h : Read ctx m) {bytes : List UInt8} (hb : bytes.length < 2 ^ 32) :
    Read (iputilsMd5Update ctx bytes) (m ++ bytes) := by
  have hp : (rest 64 m).length = m.length % 64 := length_rest 64 m
  have hlt : m.length % 64 < 64 := Nat.mod_lt _ (by decide)
  have hlen : ctx.block.length = 64 := h.length
  refine Read.of_absorbed (Md5Stream.counted ctx bytes) h.buf (h.counted hb) ?_
  rw [h.update_eq bytes]
  split_ifs with hzero hshort
  · rw [List.eq_nil_of_length_eq_zero (hp.trans hzero)]
    exact absorbed _ bytes h.length
  · have hfit : m.length % 64 + bytes.length ≤ ctx.block.length := by omega
    have hwhole : (rest 64 m ++ bytes).length < 64 := by
      rw [List.length_append]
      omega
    exact
      { buf := (whole_of_lt hwhole).symm
        length := (length_store hfit).trans h.length
        block := by
          rw [Nat.mod_eq_of_lt hwhole, rest_of_lt hwhole, List.length_append, hp, take_store hfit, h.block]
        bits0 := rfl
        bits1 := rfl }
  · have htake : (bytes.take (64 - m.length % 64)).length = 64 - m.length % 64 :=
      List.length_take_of_le (by omega)
    have hfit : m.length % 64 + (bytes.take (64 - m.length % 64)).length = ctx.block.length := by omega
    have hstore := length_store hfit.le
    have hblock := store_full hfit
    rw [h.block] at hblock
    rw [← hp] at hblock hstore hlt hshort ⊢
    exact Absorbed.of_block hlt.le (by omega) hblock (absorbed _ _ (hstore.trans hlen))

/-- The padding fills the block that the message has begun, or this one and another. -/
theorem Read.final (h : Read ctx m) : iputilsMd5Final ctx = md5 m := by
  have hp : (rest 64 m).length = m.length % 64 := length_rest 64 m
  have hlt : m.length % 64 < 64 := Nat.mod_lt _ (by decide)
  have hlen : ctx.block.length = 64 := h.length
  have hcount : (le32 ctx.bits0 ++ le32 ctx.bits1).length = 8 := rfl
  have hmd5 : md5 m = output (whole 64 iputilsMd5Transform ctx.buf (rest 64 m ++
      0x80 :: (List.replicate ((119 - m.length % 64) % 64) 0 ++ (le32 ctx.bits0 ++ le32 ctx.bits1)))) := by
    rw [md5, padded, whole_append (by decide), ← h.buf, le32_append h.bits]
  rw [hmd5]
  unfold iputilsMd5Final
  simp only [h.bits.pending]
  generalize le32 ctx.bits0 ++ le32 ctx.bits1 = bits at hcount ⊢
  generalize hr : m.length % 64 = r at hp hlt ⊢
  have hone : r + [(0x80 : UInt8)].length = r + 1 := rfl
  by_cases hpad : 64 - 1 - r < 8
  · -- The zeros close this block, and the next one begins with 56 of them.
    have hzeros : (119 - r) % 64 = 64 - 1 - r + 56 := by omega
    have hfirst : store (store ctx.block r [0x80]) (r + 1) (List.replicate (64 - 1 - r) 0) =
        rest 64 m ++ 0x80 :: List.replicate (64 - 1 - r) 0 := by
      rw [← h.block, hr]
      exact store_store_full hone (by rw [List.length_replicate]; omega)
    have hlength : (rest 64 m ++ 0x80 :: List.replicate (64 - 1 - r) (0 : UInt8)).length = 64 := by
      rw [List.length_append, List.length_cons, List.length_replicate]
      omega
    have hlast : store (store (rest 64 m ++ 0x80 :: List.replicate (64 - 1 - r) 0) 0
        (List.replicate 56 0)) 56 bits = List.replicate 56 0 ++ bits :=
      store_store_full rfl (by omega)
    have hsecond : (List.replicate 56 (0 : UInt8) ++ bits).length = 64 := by
      rw [List.length_append, List.length_replicate, hcount]
    have hblocks : rest 64 m ++ 0x80 :: (List.replicate ((119 - r) % 64) 0 ++ bits) =
        rest 64 m ++ 0x80 :: List.replicate (64 - 1 - r) 0 ++ (List.replicate 56 0 ++ bits) := by
      rw [hzeros, List.replicate_add]
      simp only [List.append_assoc, List.cons_append]
    rw [if_pos hpad, hfirst, hblocks, whole_block_append (by decide) hlength,
      whole_block (by decide) hsecond, ← hlast]
    rfl
  · have hzeros : (119 - r) % 64 = 64 - 1 - r - 8 := by omega
    have hblock : store (store (store ctx.block r [0x80]) (r + 1) (List.replicate (64 - 1 - r - 8) 0))
        56 bits = rest 64 m ++ 0x80 :: (List.replicate (64 - 1 - r - 8) 0 ++ bits) := by
      have hsecond : store (store ctx.block r [0x80]) (r + 1) (List.replicate (64 - 1 - r - 8) 0) =
          store ctx.block r (0x80 :: List.replicate (64 - 1 - r - 8) 0) :=
        store_store (by rw [List.length_replicate, List.length_singleton]; omega)
      rw [hsecond, ← h.block, hr]
      exact store_store_full (by rw [List.length_cons, List.length_replicate]; omega) (by omega)
    have hlength : (rest 64 m ++ 0x80 :: (List.replicate (64 - 1 - r - 8) 0 ++ bits)).length = 64 := by
      rw [List.length_append, List.length_cons, List.length_append, List.length_replicate]
      omega
    rw [if_neg hpad, hzeros, whole_block (by decide) hlength, ← hblock]
    rfl

theorem Read.foldl {pieces : List (List UInt8)} (h : Read ctx m) (hp : ∀ p ∈ pieces, p.length < 2 ^ 32) :
    Read (pieces.foldl iputilsMd5Update ctx) (m ++ pieces.flatten) := by
  induction pieces generalizing ctx m with
  | nil => rwa [List.flatten_nil, List.append_nil, List.foldl_nil]
  | cons p pieces ih =>
    have hfirst := h.update (hp p List.mem_cons_self)
    have hrest := ih hfirst fun q hq => hp q (List.mem_cons_of_mem p hq)
    rwa [List.append_assoc] at hrest

end Contexts

/-- The digest is that of the message, however it was cut into pieces. -/
theorem digest_pieces (pieces : List (List UInt8)) (hp : ∀ p ∈ pieces, p.length < 2 ^ 32) :
    iputilsMd5Final (pieces.foldl iputilsMd5Update iputilsMd5Init) = md5 pieces.flatten :=
  (read_nil.foldl hp).final

/-- Three pieces, of which the second reaches into the second block. -/
def threePieces : List (List UInt8) :=
  [List.replicate 60 97, List.replicate 10 98, List.replicate 70 99]

theorem digest_pieces_three :
    iputilsMd5Final (threePieces.foldl iputilsMd5Update iputilsMd5Init) = md5 threePieces.flatten :=
  digest_pieces threePieces (by decide)

end Iputils.Md5Stream
