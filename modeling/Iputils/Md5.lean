import Iputils.ByteBuffer

/-!
# The message digest

`md5.c` on a little-endian machine, where a word and its four bytes are the same
memory. The 64 steps of the transformation are a table; after each of them the four
registers change places.
-/
set_option autoImplicit false

namespace Iputils.Md5
open ByteBuffer

structure Words where
  a : UInt32
  b : UInt32
  c : UInt32
  d : UInt32
deriving Repr, DecidableEq

/-- `struct IPUTILS_MD5Context`; `block` is the array `in`. -/
structure Md5Context where
  buf : Words
  bits0 : UInt32 := 0
  bits1 : UInt32 := 0
  block : List UInt8

inductive Round
  | f1 | f2 | f3 | f4
deriving Repr, DecidableEq

def Round.apply (x y z : UInt32) : Round → UInt32
  | .f1 => z ^^^ (x &&& (y ^^^ z))
  | .f2 => y ^^^ (z &&& (x ^^^ y))
  | .f3 => x ^^^ y ^^^ z
  | .f4 => y ^^^ (x ||| ~~~z)

/-- The arguments of `MD5STEP` that are not registers. -/
structure Step where
  round : Round
  index : ℕ
  constant : UInt32
  shift : UInt32
deriving Repr, DecidableEq

def steps : List Step :=
  [⟨.f1, 0, 0xd76aa478, 7⟩, ⟨.f1, 1, 0xe8c7b756, 12⟩, ⟨.f1, 2, 0x242070db, 17⟩,
   ⟨.f1, 3, 0xc1bdceee, 22⟩, ⟨.f1, 4, 0xf57c0faf, 7⟩, ⟨.f1, 5, 0x4787c62a, 12⟩,
   ⟨.f1, 6, 0xa8304613, 17⟩, ⟨.f1, 7, 0xfd469501, 22⟩, ⟨.f1, 8, 0x698098d8, 7⟩,
   ⟨.f1, 9, 0x8b44f7af, 12⟩, ⟨.f1, 10, 0xffff5bb1, 17⟩, ⟨.f1, 11, 0x895cd7be, 22⟩,
   ⟨.f1, 12, 0x6b901122, 7⟩, ⟨.f1, 13, 0xfd987193, 12⟩, ⟨.f1, 14, 0xa679438e, 17⟩,
   ⟨.f1, 15, 0x49b40821, 22⟩, ⟨.f2, 1, 0xf61e2562, 5⟩, ⟨.f2, 6, 0xc040b340, 9⟩,
   ⟨.f2, 11, 0x265e5a51, 14⟩, ⟨.f2, 0, 0xe9b6c7aa, 20⟩, ⟨.f2, 5, 0xd62f105d, 5⟩,
   ⟨.f2, 10, 0x02441453, 9⟩, ⟨.f2, 15, 0xd8a1e681, 14⟩, ⟨.f2, 4, 0xe7d3fbc8, 20⟩,
   ⟨.f2, 9, 0x21e1cde6, 5⟩, ⟨.f2, 14, 0xc33707d6, 9⟩, ⟨.f2, 3, 0xf4d50d87, 14⟩,
   ⟨.f2, 8, 0x455a14ed, 20⟩, ⟨.f2, 13, 0xa9e3e905, 5⟩, ⟨.f2, 2, 0xfcefa3f8, 9⟩,
   ⟨.f2, 7, 0x676f02d9, 14⟩, ⟨.f2, 12, 0x8d2a4c8a, 20⟩, ⟨.f3, 5, 0xfffa3942, 4⟩,
   ⟨.f3, 8, 0x8771f681, 11⟩, ⟨.f3, 11, 0x6d9d6122, 16⟩, ⟨.f3, 14, 0xfde5380c, 23⟩,
   ⟨.f3, 1, 0xa4beea44, 4⟩, ⟨.f3, 4, 0x4bdecfa9, 11⟩, ⟨.f3, 7, 0xf6bb4b60, 16⟩,
   ⟨.f3, 10, 0xbebfbc70, 23⟩, ⟨.f3, 13, 0x289b7ec6, 4⟩, ⟨.f3, 0, 0xeaa127fa, 11⟩,
   ⟨.f3, 3, 0xd4ef3085, 16⟩, ⟨.f3, 6, 0x04881d05, 23⟩, ⟨.f3, 9, 0xd9d4d039, 4⟩,
   ⟨.f3, 12, 0xe6db99e5, 11⟩, ⟨.f3, 15, 0x1fa27cf8, 16⟩, ⟨.f3, 2, 0xc4ac5665, 23⟩,
   ⟨.f4, 0, 0xf4292244, 6⟩, ⟨.f4, 7, 0x432aff97, 10⟩, ⟨.f4, 14, 0xab9423a7, 15⟩,
   ⟨.f4, 5, 0xfc93a039, 21⟩, ⟨.f4, 12, 0x655b59c3, 6⟩, ⟨.f4, 3, 0x8f0ccc92, 10⟩,
   ⟨.f4, 10, 0xffeff47d, 15⟩, ⟨.f4, 1, 0x85845dd1, 21⟩, ⟨.f4, 8, 0x6fa87e4f, 6⟩,
   ⟨.f4, 15, 0xfe2ce6e0, 10⟩, ⟨.f4, 6, 0xa3014314, 15⟩, ⟨.f4, 13, 0x4e0811a1, 21⟩,
   ⟨.f4, 4, 0xf7537e82, 6⟩, ⟨.f4, 11, 0xbd3af235, 10⟩, ⟨.f4, 2, 0x2ad7d2bb, 15⟩,
   ⟨.f4, 9, 0xeb86d391, 21⟩]

def le32At (bytes : List UInt8) (off : ℕ) : UInt32 :=
  (bytes.getD off 0).toUInt32 ||| (bytes.getD (off + 1) 0).toUInt32 <<< 8 |||
    (bytes.getD (off + 2) 0).toUInt32 <<< 16 ||| (bytes.getD (off + 3) 0).toUInt32 <<< 24

def le32 (x : UInt32) : List UInt8 :=
  [x.toUInt8, (x >>> 8).toUInt8, (x >>> 16).toUInt8, (x >>> 24).toUInt8]

/-- `MD5STEP` on the registers in the order in which the next step names them. -/
def md5Step (block : List UInt8) (w : Words) (s : Step) : Words :=
  let t := w.a + (s.round.apply w.b w.c w.d + (le32At block (4 * s.index) + s.constant))
  ⟨w.d, (t <<< s.shift ||| t >>> (32 - s.shift)) + w.b, w.b, w.c⟩

def iputilsMd5Transform (buf : Words) (block : List UInt8) : Words :=
  let w := steps.foldl (md5Step block) buf
  ⟨buf.a + w.a, buf.b + w.b, buf.c + w.c, buf.d + w.d⟩

/-- The array `in` is not initialised; every byte of it is written before it is read. -/
def iputilsMd5Init : Md5Context where
  buf := ⟨0x67452301, 0xefcdab89, 0x98badcfe, 0x10325476⟩
  block := List.replicate 64 0

/-- The loop over whole blocks, and what is left. -/
def absorb : ℕ → Md5Context → List UInt8 → Md5Context
  | 0, ctx, rest => { ctx with block := store ctx.block 0 rest }
  | n + 1, ctx, rest =>
      absorb n { ctx with buf := iputilsMd5Transform ctx.buf (rest.take 64)
                          block := rest.take 64 } (rest.drop 64)

def iputilsMd5Update (ctx : Md5Context) (bytes : List UInt8) : Md5Context :=
  let len := UInt32.ofNat bytes.length
  let bits0 := ctx.bits0 + (len <<< 3)
  let carry : UInt32 := if bits0 < ctx.bits0 then 1 else 0
  let t := ((ctx.bits0 >>> 3) &&& 0x3f).toNat
  let ctx := { ctx with bits0 := bits0, bits1 := ctx.bits1 + carry + (len >>> 29) }
  if t = 0 then absorb (bytes.length / 64) ctx bytes
  else if bytes.length < 64 - t then { ctx with block := store ctx.block t bytes }
  else
    let block := store ctx.block t (bytes.take (64 - t))
    let rest := bytes.drop (64 - t)
    absorb (rest.length / 64)
      { ctx with buf := iputilsMd5Transform ctx.buf block, block := block } rest

/-- Padding to a block boundary and the length in bits, in one block or in two. -/
def iputilsMd5Final (ctx : Md5Context) : List UInt8 :=
  let count := ((ctx.bits0 >>> 3) &&& 0x3f).toNat
  let block := store ctx.block count [0x80]
  let pad := 64 - 1 - count
  let (buf, block) :=
    if pad < 8 then
      let block := store block (count + 1) (List.replicate pad 0)
      (iputilsMd5Transform ctx.buf block, store block 0 (List.replicate 56 0))
    else (ctx.buf, store block (count + 1) (List.replicate (pad - 8) 0))
  let buf := iputilsMd5Transform buf (store block 56 (le32 ctx.bits0 ++ le32 ctx.bits1))
  le32 buf.a ++ le32 buf.b ++ le32 buf.c ++ le32 buf.d

/-- `IPUTILS_MD5LENGTH`. -/
def md5Length : ℕ := 16

theorem length_iputilsMd5Final (ctx : Md5Context) : (iputilsMd5Final ctx).length = md5Length := rfl

example : iputilsMd5Final (iputilsMd5Update (iputilsMd5Update iputilsMd5Init [97]) [98, 99]) =
    [0x90, 0x01, 0x50, 0x98, 0x3c, 0xd2, 0x4f, 0xb0, 0xd6, 0x96, 0x3f, 0x7d, 0x28, 0xe1, 0x7f,
     0x72] := by
  decide +kernel

end Iputils.Md5
