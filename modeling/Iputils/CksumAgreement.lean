import Iputils.InCksum

/-!
# The two checksums

ping and clockdiff each have an `in_cksum` of their own. ping adds up words and folds the
carries at the end. clockdiff folds after each word and reads the words of an odd address
byte by byte. Here both walk over memory with addresses. Both give the complement of the
end-around-carry sum of the block, wherever it lies.
-/
set_option autoImplicit false

namespace Iputils.CksumAgreement
open MachineInt ByteBuffer OnesComplement InCksum

section Code

/-- Memory that may be read: bytes from an address on. -/
structure Block where
  base : ℕ
  bytes : List UInt8

def Block.load (b : Block) (addr : ℕ) : Option UInt8 :=
  if b.base ≤ addr then b.bytes[addr - b.base]? else none

/-- The load of an `unsigned short`, which a little-endian machine makes at any address. -/
def Block.loadShort (b : Block) (addr : ℕ) : Option ℤ := do
  let lo ← b.load addr
  let hi ← b.load (addr + 1)
  pure (loadWord lo hi)

variable (b : Block)

/-- The summation loop of ping from the address `w` on. -/
def pingWords : ℕ → ℕ → ℤ → Option ℤ
  | _, 0, sum => some sum
  | w, 1, sum => do
      let c ← b.load w
      intAdd sum (byteVal c)
  | w, nleft + 2, sum => do
      let word ← b.loadShort w
      let sum ← intAdd sum word
      pingWords (w + 2) nleft sum

/-- `in_cksum` of ping -/
def pingInCksum (addr len : ℕ) (csum : ℤ) : Option ℤ := (pingWords b addr len csum).bind finishSum

/-- `union word` -/
structure Word where
  c0 : UInt8
  c1 : UInt8
deriving Repr, DecidableEq

def Word.s (u : Word) : ℤ := loadWord u.c0 u.c1

/-- The variables of clockdiff's `in_cksum`. -/
structure State where
  addr : ℕ
  len : ℤ
  u : Word
  sum : ℤ
deriving Repr, DecidableEq

def addcarry (sum : ℤ) : ℤ := if u32 sum / 65536 ≠ 0 then u32 sum % 65536 + 1 else sum

/-- The next word; one at an odd address goes through the union. -/
def nextWord (st : State) : Option (Word × ℤ) :=
  if st.addr % 2 = 1 then do
    let c0 ← b.load st.addr
    let c1 ← b.load (st.addr + 1)
    let u : Word := ⟨c0, c1⟩
    pure (u, u.s)
  else do
    let word ← b.loadShort st.addr
    pure (st.u, word)

/-- The inner loop. -/
def addWords : ℕ → State → Option State
  | 0, _ => none
  | fuel + 1, st =>
      if st.len - 2 ≥ 0 then do
        let (u, word) ← nextWord b st
        let sum ← intAdd st.sum word
        addWords fuel ⟨st.addr + 2, st.len - 2, u, addcarry sum⟩
      else some { st with len := st.len - 2 }

/-- The outer loop. -/
def passes : ℕ → State → Option State
  | 0, _ => none
  | fuel + 1, st =>
      if st.len > 0 then do
        let st ← addWords b (fuel + 1) st
        if st.len = -1 then do
          let c ← b.load st.addr
          passes fuel { st with u := { st.u with c0 := c } }
        else passes fuel st
      else some st

/-- `in_cksum` of clockdiff. The union is not initialised and starts with any value. -/
def clockdiffInCksum (u : Word) (addr : ℕ) (len : ℤ) : Option ℤ := do
  let st ← passes b (len.toNat + 1) ⟨addr, len, u, 0⟩
  let sum ← if st.len = -1 then do
      let u : Word := { st.u with c1 := 0 }
      let sum ← intAdd st.sum u.s
      pure (addcarry sum)
    else pure st.sum
  pure (u16 (-sum - 1))

end Code

section Memory
variable {b : Block} {addr : ℕ} {c d : UInt8} {w : List UInt8}

/-- The bytes `w` lie at the address. -/
def Stored (b : Block) (addr : ℕ) (w : List UInt8) : Prop :=
  ∀ i < w.length, b.load (addr + i) = w[i]?

theorem stored_base (base : ℕ) (bytes : List UInt8) : Stored ⟨base, bytes⟩ base bytes := by
  intro i _
  rw [Block.load, if_pos (Nat.le_add_right base i), Nat.add_sub_cancel_left]

theorem Stored.head (h : Stored b addr (c :: w)) : b.load addr = some c :=
  h 0 (Nat.zero_lt_succ _)

theorem Stored.tail (h : Stored b addr (c :: w)) : Stored b (addr + 1) w := by
  intro i hi
  rw [Nat.add_assoc, Nat.add_comm 1]
  exact h (i + 1) (Nat.succ_lt_succ hi)

theorem Stored.loadShort (h : Stored b addr (c :: d :: w)) :
    b.loadShort addr = some (loadWord c d) := by
  rw [Block.loadShort, h.head, h.tail.head]
  rfl

/-- Over memory ping sums the words of the bytes that lie there. -/
theorem pingWords_eq (h : Stored b addr w) (sum : ℤ) :
    pingWords b addr w.length sum = sumWords w w.length sum := by
  fun_induction wordSum w generalizing addr sum with
  | case1 => rfl
  | case2 c =>
      rw [List.length_singleton, pingWords, h.head]
      rfl
  | case3 lo hi w ih =>
      rw [List.length_cons, List.length_cons, pingWords, h.loadShort, sumWords]
      change (intAdd sum (loadWord lo hi) >>= fun sum => pingWords b (addr + 2) w.length sum) = _
      cases intAdd sum (loadWord lo hi) with
      | none => rfl
      | some sum' => exact ih h.tail.tail sum'

theorem pingInCksum_eq (h : Stored b addr w) (csum : ℤ) :
    pingInCksum b addr w.length csum = inCksum w w.length csum := by
  rw [pingInCksum, pingWords_eq h, inCksum]

end Memory

section Folding
variable {b : Block} {addr fuel : ℕ} {n : ℤ} {u : Word} {w : List UInt8}

/-- Two folded words have a carry of one at most. -/
theorem addcarry_eq_fold {sum : ℤ} (h₀ : 0 ≤ sum) (h₁ : sum ≤ 131070) :
    addcarry sum = fold sum := by
  unfold addcarry fold u32
  split_ifs <;> omega

theorem fold_fold {m : ℤ} (hn : 0 ≤ n) (hm : 0 ≤ m) : fold (fold n + m) = fold (n + m) := by
  rcases hn.eq_or_lt with rfl | hpos
  · rfl
  · exact fold_fold_add hpos hm

/-- A word is added without overflow, and folding keeps the end-around-carry sum. -/
theorem add_word {word : ℤ} (hn : 0 ≤ n) (h₀ : 0 ≤ word) (h₁ : word ≤ 65535) :
    intAdd (fold n) word = some (fold n + word) ∧ addcarry (fold n + word) = fold (n + word) := by
  have hlow := fold_nonneg n
  have hhigh := fold_le n
  refine ⟨intAdd_of_mem hlow h₀ (by unfold intMax; omega), ?_⟩
  rw [addcarry_eq_fold (by omega) (by omega), fold_fold hn h₀]

/-- The word is the same at an odd address. -/
theorem nextWord_eq {st : State} {lo hi : UInt8} (h : Stored b st.addr (lo :: hi :: w)) :
    ∃ u, nextWord b st = some (u, loadWord lo hi) := by
  unfold nextWord
  split_ifs
  · rw [h.head, h.tail.head]
    exact ⟨⟨lo, hi⟩, rfl⟩
  · rw [h.loadShort]
    exact ⟨st.u, rfl⟩

/-- What the inner loop has left: one byte at most, and the folded sum of all that is before it. -/
structure Summed (b : Block) (total : ℤ) (st : State) (left : List UInt8) : Prop where
  stored : Stored b st.addr left
  short : left.length ≤ 1
  len : st.len = left.length - 2
  sum : ∃ n, 0 ≤ n ∧ st.sum = fold n ∧ n + wordSum left = total

/-- A round of the inner loop. -/
theorem addWords_succ {lo hi : UInt8} (h : Stored b addr (lo :: hi :: w)) (hn : 0 ≤ n) :
    ∃ u', addWords b (fuel + 1) ⟨addr, (lo :: hi :: w).length, u, fold n⟩ =
      addWords b fuel ⟨addr + 2, w.length, u', fold (n + loadWord lo hi)⟩ := by
  have hlen : ((lo :: hi :: w).length : ℤ) - 2 = w.length := by
    rw [List.length_cons, List.length_cons]
    omega
  obtain ⟨u', hnext⟩ :=
    @nextWord_eq b w ⟨addr, (lo :: hi :: w).length, u, fold n⟩ lo hi h
  obtain ⟨hadd, hcarry⟩ := add_word hn (loadWord_nonneg lo hi) (loadWord_le lo hi)
  refine ⟨u', ?_⟩
  rw [addWords, hlen, if_pos (Int.natCast_nonneg _), hnext]
  simp only [Option.bind_eq_bind, Option.bind_some, hadd, hcarry]

theorem addWords_stop {st : State} (h : st.len < 2) :
    addWords b (fuel + 1) st = some { st with len := st.len - 2 } := by
  rw [addWords, if_neg (by omega)]

/-- The inner loop ends, with the odd byte left if there is one. -/
theorem addWords_summed (h : Stored b addr w) (hn : 0 ≤ n) (hfuel : w.length < fuel) :
    ∃ st left, addWords b fuel ⟨addr, w.length, u, fold n⟩ = some st ∧
      Summed b (n + wordSum w) st left := by
  obtain ⟨fuel, rfl⟩ : ∃ rest, fuel = rest + 1 := Nat.exists_eq_succ_of_ne_zero (by omega)
  fun_induction wordSum w generalizing addr fuel n u with
  | case1 =>
      have hstop := @addWords_stop b fuel ⟨addr, 0, u, fold n⟩ (show (0 : ℤ) < 2 by decide)
      exact ⟨_, [], hstop, h, Nat.zero_le 1, rfl, n, hn, rfl, rfl⟩
  | case2 c =>
      have hstop := @addWords_stop b fuel ⟨addr, 1, u, fold n⟩ (show (1 : ℤ) < 2 by decide)
      exact ⟨_, [c], hstop, h, le_rfl, rfl, n, hn, rfl, rfl⟩
  | case3 lo hi w ih =>
      rw [List.length_cons, List.length_cons] at hfuel
      obtain ⟨fuel, rfl⟩ : ∃ rest, fuel = rest + 1 := Nat.exists_eq_succ_of_ne_zero (by omega)
      obtain ⟨u', hround⟩ := @addWords_succ b addr (fuel + 1) n u w lo hi h hn
      have hword := loadWord_nonneg lo hi
      obtain ⟨st, left, hrest, hsummed⟩ :=
        @ih (addr + 2) (n + loadWord lo hi) u' h.tail.tail (by omega) fuel (by omega)
      rw [← add_assoc]
      exact ⟨st, left, hround.trans hrest, hsummed⟩

/-- How the outer loop ends: everything is summed, or the odd byte is in the union. -/
inductive Ended (total : ℤ) (st : State) : Prop
  | even (hlen : st.len ≠ -1) (hsum : st.sum = fold total)
  | odd (n : ℤ) (hn : 0 ≤ n) (hlen : st.len = -1) (hsum : st.sum = fold n)
      (htotal : n + byteVal st.u.c0 = total)

theorem passes_stop {st : State} (h : st.len ≤ 0) : passes b (fuel + 1) st = some st := by
  rw [passes, if_neg (by omega)]

/-- The pass of the outer loop behind its inner one. -/
theorem passes_summed {total : ℤ} {st : State} {left : List UInt8}
    (h : Summed b total st left) (hlen : 0 < w.length)
    (hrun : addWords b (fuel + 2) ⟨addr, w.length, u, 0⟩ = some st) :
    ∃ st', passes b (fuel + 2) ⟨addr, w.length, u, 0⟩ = some st' ∧ Ended total st' := by
  obtain ⟨hstored, hshort, hleft, n, hn, hsum, htotal⟩ := h
  rw [passes, if_pos (show (0 : ℤ) < w.length by omega), hrun]
  dsimp only [Option.bind_eq_bind, Option.bind_some]
  cases left with
  | nil =>
      have hlen : st.len = -2 := hleft
      rw [if_neg (by omega), passes_stop (by omega)]
      refine ⟨st, rfl, .even (by omega) ?_⟩
      rw [hsum, ← htotal, wordSum, add_zero]
  | cons c rest =>
      obtain rfl : rest = [] :=
        List.length_eq_zero_iff.mp (Nat.le_zero.mp (Nat.le_of_succ_le_succ hshort))
      have hlen : st.len = -1 := hleft
      have hstop := @passes_stop b fuel { st with u := { st.u with c0 := c } }
        (show st.len ≤ 0 by omega)
      rw [if_pos hlen, hstored.head, Option.bind_some, hstop]
      exact ⟨_, rfl, .odd n hn hlen hsum htotal⟩

theorem passes_ended (h : Stored b addr w) (u : Word) :
    ∃ st, passes b (w.length + 1) ⟨addr, w.length, u, 0⟩ = some st ∧ Ended (wordSum w) st := by
  cases w with
  | nil => exact ⟨_, passes_stop le_rfl, .even (show (0 : ℤ) ≠ -1 by decide) rfl⟩
  | cons c w =>
      obtain ⟨st, left, hrun, hsummed⟩ :=
        @addWords_summed b addr ((c :: w).length + 1) 0 u (c :: w) h le_rfl (Nat.lt_succ_self _)
      rw [zero_add] at hsummed
      exact passes_summed hsummed (Nat.zero_lt_succ _) hrun

/-- The odd byte is added as a word whose second byte is zero. -/
theorem clockdiffInCksum_eq (h : Stored b addr w) (u : Word) :
    clockdiffInCksum b u addr w.length = some (complement (fold (wordSum w))) := by
  obtain ⟨st, hpasses, hended⟩ := passes_ended h u
  have hfinish : ∀ m, u16 (-fold m - 1) = complement (fold m) := by
    intro m
    have hlow := fold_nonneg m
    have hhigh := fold_le m
    unfold u16 complement
    omega
  rw [clockdiffInCksum, Int.toNat_natCast, hpasses, Option.bind_eq_bind, Option.bind_some]
  cases hended with
  | even hlen hsum =>
      rw [if_neg hlen, hsum, ← hfinish]
      rfl
  | odd n hn hlen hsum htotal =>
      have hbyte : (Word.mk st.u.c0 0).s = byteVal st.u.c0 := by
        rw [Word.s, loadWord, byteVal_zero, mul_zero, add_zero]
      obtain ⟨hadd, hcarry⟩ :=
        add_word hn (byteVal_nonneg st.u.c0) ((byteVal_le st.u.c0).trans (by decide))
      rw [if_pos hlen, ← hfinish, ← htotal, ← hcarry]
      simp only [Option.bind_eq_bind, Option.bind_some, Option.pure_def, hbyte, hsum, hadd]

end Folding

/-- Whatever the address, both functions return the same 16 bits. -/
theorem cksums_agree {bytes : List UInt8} (h : bytes.length ≤ 65535) :
    ∃ v, 0 ≤ v ∧ v ≤ 65535 ∧ ∀ base u,
      pingInCksum ⟨base, bytes⟩ base bytes.length 0 = some v ∧
      clockdiffInCksum ⟨base, bytes⟩ u base bytes.length = some v := by
  have hlow := fold_nonneg (wordSum bytes)
  have hhigh := fold_le (wordSum bytes)
  have hping : inCksum bytes bytes.length 0 =
      some (complement (fold (0 + wordSum (bytes.take bytes.length)))) :=
    inCksum_eq le_rfl h le_rfl (by decide)
  rw [List.take_length, zero_add] at hping
  refine ⟨complement (fold (wordSum bytes)), ?_, ?_, fun base u => ⟨?_, ?_⟩⟩
  · unfold complement
    omega
  · unfold complement
    omega
  · rw [pingInCksum_eq (stored_base base bytes), hping]
  · exact clockdiffInCksum_eq (stored_base base bytes) u

/-- Three bytes at the odd address 1. -/
theorem cksums_agree_odd :
    ∃ v, pingInCksum ⟨1, [1, 2, 3]⟩ 1 3 0 = some v ∧
      clockdiffInCksum ⟨1, [1, 2, 3]⟩ ⟨7, 7⟩ 1 3 = some v := by
  obtain ⟨v, -, -, hagree⟩ := cksums_agree (show [1, 2, 3].length ≤ 65535 by decide)
  exact ⟨v, hagree 1 ⟨7, 7⟩⟩

end Iputils.CksumAgreement
