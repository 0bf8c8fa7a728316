import Iputils.CheckedMemory
import Iputils.OptionItems
import Iputils.ParseReply

/-!
# The bytes that pr_options reads

`pr_options` once more, with every access to the option area and to `old_rr` checked.
`n` is the true length of the area; the length that the walk counts down is an argument
of its own, since the caller passes it in two ways: for a raw socket it is what the IP
header says, for a datagram socket it is `cmsg_len`, which counts the control header
too. The main result gives the exact condition for all accesses to be in bounds, as a
condition on each position of the area that the walk meets.
-/
set_option autoImplicit false

namespace Iputils.OptionReads
open ByteBuffer PrOptions OptionItems CheckedMemory ParseReply

/-- `MAX_IPOPTLEN`, the size of `old_rr`. -/
def maxIpoptlen : ℕ := 40

/-- `sizeof(struct cmsghdr)`. -/
def cmsghdrSize : ℕ := 16

def loadByte (opts : List UInt8) (n i : ℕ) : Except Fault ℤ := load (byteAt opts) n i

def loadBytes (opts : List UInt8) (n off k : ℕ) : Except Fault (List UInt8) :=
  loadBlock (fun i => opts.getD i 0) n off k

/-- The loops over addresses, with `i` bytes left. -/
def readHops (opts : List UInt8) (n : ℕ) : ℕ → ℕ → ℤ → Except Fault (List Address)
  | 0, _, _ => .error .endless
  | fuel + 1, off, i => do
      let address ← loadBytes opts n off 4
      if i - 4 ≤ 0 then pure [address]
      else do
        let rest ← readHops opts n fuel (off + 4) (i - 4)
        pure (address :: rest)

def readRoute (opts : List UInt8) (n off : ℕ) (strict : Bool) : Except Fault Item := do
  let j ← loadByte opts n (off + 1)
  if j > ipoptMinoff then do
    let hops ← readHops opts n j.toNat (off + 2) (j - ipoptMinoff)
    pure (.route strict hops)
  else pure (.route strict [])

/-- The comparison with `old_rr` is made for equal lengths only. -/
def readSame (flood : Bool) (opts : List UInt8) (n off : ℕ) (i : ℤ) (oldRr : List UInt8) :
    Except Fault Bool :=
  if i.toNat = oldRr.length then do
    let rr ← loadBytes opts n (off + 2) i.toNat
    pure (decide (rr = oldRr ∧ flood = false))
  else pure false

def readRecord (flood : Bool) (opts : List UInt8) (n off : ℕ) (oldRr : List UInt8) :
    Except Fault (Option Item × List UInt8) := do
  let j ← loadByte opts n (off + 1)
  let i ← loadByte opts n (off + 2)
  let i := (if i > j then j else i) - ipoptMinoff
  if i ≤ 0 then pure (none, oldRr)
  else do
    let same ← readSame flood opts n off i oldRr
    if same then pure (some .same, oldRr)
    else do
      let rr ← loadBytes opts n (off + 2) i.toNat
      let _ ← storeBlock maxIpoptlen i.toNat
      let hops ← readHops opts n i.toNat (off + 3) i
      pure (some (.record hops), rr)

/-- One time is read byte by byte. -/
def readTime (opts : List UInt8) (n off : ℕ) : Except Fault ℤ := do
  let a ← loadByte opts n off
  let b ← loadByte opts n (off + 1)
  let c ← loadByte opts n (off + 2)
  let d ← loadByte opts n (off + 3)
  pure (((a * 256 + b) * 256 + c) * 256 + d)

/-- One time and what follows it; `rest` goes on with the two times to compare with. -/
def readStamped (opts : List UInt8) (n : ℕ) (address : Option Address) (off : ℕ)
    (i stdtime nonstdtime : ℤ) (rest : ℤ → ℤ → Except Fault (List Entry)) :
    Except Fault (List Entry) := do
  let l ← readTime opts n off
  let entries ←
    if i - 4 ≤ 0 then pure []
    else if l ≥ 2147483648 then rest stdtime (l - 2147483648)
    else rest l nonstdtime
  pure (⟨address, some (stampOf l stdtime nonstdtime)⟩ :: entries)

def readEntries (opts : List UInt8) (n : ℕ) (withAddress : Bool) :
    ℕ → ℕ → ℤ → ℤ → ℤ → Except Fault (List Entry)
  | 0, _, _, _, _ => .error .endless
  | fuel + 1, off, i, stdtime, nonstdtime =>
      if withAddress then do
        let address ← loadBytes opts n off 4
        if i - 4 ≤ 0 then pure [⟨some address, none⟩]
        else
          readStamped opts n (some address) (off + 4) (i - 4) stdtime nonstdtime
            (readEntries opts n withAddress fuel (off + 8) (i - 8))
      else
        readStamped opts n none off i stdtime nonstdtime
          (readEntries opts n withAddress fuel (off + 4) (i - 4))

def readTimes (opts : List UInt8) (n off : ℕ) : Except Fault (Option Item) := do
  let j ← loadByte opts n (off + 1)
  let i ← loadByte opts n (off + 2)
  let i := (if i > j then j else i) - 5
  if i ≤ 0 then pure none
  else do
    let flags ← loadByte opts n (off + 3)
    let entries ← readEntries opts n (flags % 16 ≠ ipoptTsTsonly) i.toNat (off + 4) i 0 0
    pure (some (.times entries (flags / 16)))

def readOption (flood : Bool) (opts : List UInt8) (n off : ℕ) (oldRr : List UInt8) :
    Except Fault (Option Item × List UInt8) := do
  let kind ← loadByte opts n off
  if kind = ipoptSsrr ∨ kind = ipoptLsrr then do
    let item ← readRoute opts n off (decide (kind = ipoptSsrr))
    pure (some item, oldRr)
  else if kind = ipoptRr then readRecord flood opts n off oldRr
  else if kind = ipoptTs then do
    let item ← readTimes opts n off
    pure (item, oldRr)
  else pure (some (.unknown kind), oldRr)

def readWalk (flood : Bool) (opts : List UInt8) (n : ℕ) :
    ℕ → ℕ → ℕ → List UInt8 → Except Fault (List (Option Item) × List UInt8)
  | 0, _, totlen, oldRr => if totlen = 0 then pure ([], oldRr) else .error .endless
  | fuel + 1, off, totlen, oldRr =>
      if totlen = 0 then pure ([], oldRr)
      else do
        let kind ← loadByte opts n off
        if kind = ipoptEol then pure ([], oldRr)
        else if kind = ipoptNop then do
          let rest ← readWalk flood opts n fuel (off + 1) (totlen - 1) oldRr
          pure (some .nop :: rest.1, rest.2)
        else do
          let olen ← loadByte opts n (off + 1)
          if olen.toNat < 2 ∨ olen.toNat > totlen then pure ([], oldRr)
          else do
            let one ← readOption flood opts n off oldRr
            let rest ← readWalk flood opts n fuel (off + olen.toNat) (totlen - olen.toNat) one.2
            pure (one.1 :: rest.1, rest.2)

/-- `pr_options` with checked accesses. -/
def readOptions (flood : Bool) (opts : List UInt8) (n totlen : ℕ) (oldRr : List UInt8) :
    Except Fault (List (Option Item) × List UInt8) :=
  readWalk flood opts n totlen 0 totlen oldRr

/-! ## When the accesses are in bounds -/

/-- The record-route option at `off` stays in bounds, given the remembered route. The
addresses are read in steps of four and are not read at all for the same route. -/
def RecordFits (flood : Bool) (opts : List UInt8) (n off : ℕ) (route : List UInt8) : Prop :=
  off + 2 < n ∧ (filled opts off ipoptMinoff ≤ 0 ∨
    off + 2 + (filled opts off ipoptMinoff).toNat ≤ n ∧
      (bytesAt opts (off + 2) (filled opts off ipoptMinoff).toNat = route ∧ flood = false ∨
        (filled opts off ipoptMinoff).toNat ≤ maxIpoptlen ∧
          off + 3 + 4 * rounds (filled opts off ipoptMinoff) ≤ n))

def TimesFit (opts : List UInt8) (n off : ℕ) : Prop :=
  off + 2 < n ∧
    (filled opts off 5 ≤ 0 ∨ off + 4 + 4 * rounds (filled opts off 5) ≤ n)

/-- The option at `off`, whose type and length are in the area, stays in bounds. -/
def Fits (flood : Bool) (opts : List UInt8) (n off : ℕ) (route : List UInt8) : Prop :=
  let kind := byteAt opts off
  if kind = ipoptSsrr ∨ kind = ipoptLsrr then
    off + 2 + 4 * rounds (byteAt opts (off + 1) - ipoptMinoff) ≤ n
  else if kind = ipoptRr then RecordFits flood opts n off route
  else if kind = ipoptTs then TimesFit opts n off
  else True

/-- Where the walk stands: `left` bytes are still to be looked at, and `route` is the
content of `old_rr`. -/
structure Position where
  off : ℕ
  left : ℕ
  route : List UInt8
deriving Repr, DecidableEq

/-- The option at `off` leaves this in `old_rr`. -/
def remembered (opts : List UInt8) (off : ℕ) (route : List UInt8) : List UInt8 :=
  if byteAt opts off = ipoptRr ∧ 0 < filled opts off ipoptMinoff then
    bytesAt opts (off + 2) (filled opts off ipoptMinoff).toNat
  else route

/-- The length byte of an option does not stop the walk. -/
def Proper (opts : List UInt8) (p : Position) : Prop :=
  ¬ ((byteAt opts (p.off + 1)).toNat < 2 ∨ (byteAt opts (p.off + 1)).toNat > p.left)

instance (opts : List UInt8) (p : Position) : Decidable (Proper opts p) :=
  inferInstanceAs (Decidable (¬ _))

/-- The next position, behind a NOP or behind an option of a proper length. -/
def Position.next (opts : List UInt8) (p : Position) : Option Position :=
  if p.left = 0 ∨ byteAt opts p.off = ipoptEol then none
  else if byteAt opts p.off = ipoptNop then some ⟨p.off + 1, p.left - 1, p.route⟩
  else if Proper opts p then
    some ⟨p.off + (byteAt opts (p.off + 1)).toNat, p.left - (byteAt opts (p.off + 1)).toNat,
      remembered opts p.off p.route⟩
  else none

/-- The positions that the walk meets from `p` on. -/
def Meets (opts : List UInt8) : Position → Position → Prop :=
  Relation.ReflTransGen fun p q => p.next opts = some q

/-- What is read at a position lies in the area of `n` bytes. -/
def Placed (flood : Bool) (opts : List UInt8) (n : ℕ) (p : Position) : Prop :=
  p.left = 0 ∨ p.off < n ∧
    (byteAt opts p.off = ipoptEol ∨ byteAt opts p.off = ipoptNop ∨
      p.off + 1 < n ∧ (¬ Proper opts p ∨ Fits flood opts n p.off p.route))

section Bounds
variable (opts : List UInt8) (n : ℕ)

theorem loadByte_decides (i : ℕ) : Decides (loadByte opts n i) (i < n) (byteAt opts i) :=
  load_decides _ n i

theorem loadBytes_decides (off k : ℕ) :
    Decides (loadBytes opts n off k) (off + k ≤ n) (bytesAt opts off k) :=
  loadBlock_decides _ n off k

theorem rounds_pos {i : ℤ} (h : 0 < i) : rounds i = rounds (i - 4) + 1 := by
  unfold rounds
  omega

theorem rounds_nonpos {i : ℤ} (h : i ≤ 0) : rounds i = 0 := by
  unfold rounds
  omega

theorem readHops_decides {fuel : ℕ} {i : ℤ} (h₀ : 0 < i) (hf : i ≤ fuel) (off : ℕ) :
    Decides (readHops opts n fuel off i) (off + 4 * rounds i ≤ n)
      (hopsAt opts (rounds i) off) := by
  induction fuel generalizing off i with
  | zero => omega
  | succ fuel ih =>
      rw [readHops, rounds_pos h₀]
      refine (loadBytes_decides opts n off 4).bind (by omega) fun hfirst => ?_
      by_cases hlast : i - 4 ≤ 0
      · rw [rounds_nonpos hlast, if_pos hlast]
        exact .intro_pure hfirst _
      · have hrest := ih (i := i - 4) (by omega) (by omega) (off + 4)
        have hsum : off + 4 + 4 * rounds (i - 4) ≤ n ↔ off + 4 * (rounds (i - 4) + 1) ≤ n := by
          omega
        rw [if_neg hlast, ← hsum]
        exact hrest.bind id fun h => .intro_pure h _

theorem readRoute_decides {off : ℕ} (h : off + 1 < n) :
    Decides (readRoute opts n off (decide (byteAt opts off = ipoptSsrr)))
      (off + 2 + 4 * rounds (byteAt opts (off + 1) - ipoptMinoff) ≤ n)
      (routeItem opts off) := by
  rw [readRoute, routeItem]
  refine (loadByte_decides opts n (off + 1)).bind (fun _ => h) fun _ => ?_
  by_cases hj : byteAt opts (off + 1) > ipoptMinoff
  · have hfuel : byteAt opts (off + 1) - ipoptMinoff ≤ (byteAt opts (off + 1)).toNat := by
      unfold ipoptMinoff
      omega
    rw [if_pos hj, if_pos hj]
    exact (readHops_decides opts n (by omega) hfuel (off + 2)).bind id fun h => .intro_pure h _
  · rw [if_neg hj, if_neg hj, rounds_nonpos (by omega)]
    exact .intro_pure (by omega) _

theorem ite_filled (off : ℕ) (minoff : ℤ) :
    (if byteAt opts (off + 2) > byteAt opts (off + 1) then byteAt opts (off + 1)
      else byteAt opts (off + 2)) - minoff = filled opts off minoff := by
  unfold filled
  split_ifs <;> omega

theorem readSame_decides (flood : Bool) (off : ℕ) (i : ℤ) (oldRr : List UInt8) :
    Decides (readSame flood opts n off i oldRr)
      (i.toNat = oldRr.length → off + 2 + i.toNat ≤ n)
      (decide (bytesAt opts (off + 2) i.toNat = oldRr ∧ flood = false)) := by
  unfold readSame
  split_ifs with h
  · refine (loadBytes_decides opts n (off + 2) i.toNat).bind (fun hq => hq h) fun hr => ?_
    exact .intro_pure (fun _ => hr) _
  · have hne : ¬ (bytesAt opts (off + 2) i.toNat = oldRr ∧ flood = false) := by
      rintro ⟨rfl, -⟩
      exact h (by simp [bytesAt])
    rw [decide_eq_false hne]
    exact .intro_pure (fun h' => absurd h' h) _

theorem readRecord_decides (flood : Bool) {off : ℕ} (h : off + 1 < n) (oldRr : List UInt8) :
    Decides (readRecord flood opts n off oldRr) (RecordFits flood opts n off oldRr)
      (recordItem flood opts off oldRr) := by
  rw [readRecord, RecordFits, recordItem]
  refine (loadByte_decides opts n (off + 1)).bind (fun _ => h) fun _ => ?_
  refine (loadByte_decides opts n (off + 2)).bind And.left fun hpointer => ?_
  rw [ite_filled]
  generalize filled opts off ipoptMinoff = i
  by_cases hpos : i ≤ 0
  · simp only [if_pos hpos]
    exact .intro_pure ⟨hpointer, Or.inl hpos⟩ _
  · simp only [hpointer, hpos, true_and, false_or]
    refine (readSame_decides opts n flood off i oldRr).bind (fun h _ => h.1) fun hsame => ?_
    by_cases hrr : bytesAt opts (off + 2) i.toNat = oldRr ∧ flood = false
    · have hlen : i.toNat = oldRr.length := by
        rw [← hrr.1]
        simp [bytesAt]
      simp only [decide_eq_true hrr, if_true, if_pos hrr]
      exact .intro_pure ⟨hsame hlen, Or.inl hrr⟩ _
    · simp only [hrr, decide_false, Bool.false_eq_true, if_false, false_or]
      refine (loadBytes_decides opts n (off + 2) i.toNat).bind And.left fun hwindow => ?_
      refine (storeBlock_decides maxIpoptlen i.toNat).bind (fun h => h.2.1) fun hstore => ?_
      refine (readHops_decides opts n (by omega) (by omega) (off + 3)).bind (fun h => h.2.2) ?_
      exact fun hhops => .intro_pure ⟨hwindow, hstore, hhops⟩ _

theorem readTime_decides (off : ℕ) :
    Decides (readTime opts n off) (off + 4 ≤ n) (be32At opts off) := by
  rw [readTime]
  refine (loadByte_decides opts n off).bind (by omega) fun _ => ?_
  refine (loadByte_decides opts n (off + 1)).bind (by omega) fun _ => ?_
  refine (loadByte_decides opts n (off + 2)).bind (by omega) fun _ => ?_
  refine (loadByte_decides opts n (off + 3)).bind (by omega) fun h => ?_
  refine (Decides.intro_pure (by omega) _).congr Iff.rfl fun _ => ?_
  rw [be32At, be16At, be16At, Nat.add_assoc off 2 1]
  omega

theorem add_rounds_le {off : ℕ} {i : ℤ} (h : 0 < i) :
    off + 4 + 4 * rounds (i - 4) ≤ n ↔ off + 4 * rounds i ≤ n := by
  rw [rounds_pos h]
  omega

theorem readStamped_decides (address : Option Address) (off : ℕ) {i : ℤ} (h₀ : 0 < i)
    (stdtime nonstdtime : ℤ) {rest : ℤ → ℤ → Except Fault (List Entry)}
    {more : ℤ → ℤ → List Entry}
    (hrest : ¬ i - 4 ≤ 0 →
      ∀ s t, Decides (rest s t) (off + 4 + 4 * rounds (i - 4) ≤ n) (more s t)) :
    Decides (readStamped opts n address off i stdtime nonstdtime rest) (off + 4 * rounds i ≤ n)
      (⟨address, some (stampOf (be32At opts off) stdtime nonstdtime)⟩ ::
        if i - 4 ≤ 0 then []
        else if be32At opts off ≥ 2147483648 then more stdtime (be32At opts off - 2147483648)
        else more (be32At opts off) nonstdtime) := by
  rw [← add_rounds_le n h₀]
  refine (readTime_decides opts n off).bind (by omega) fun hfirst => ?_
  by_cases hlast : i - 4 ≤ 0
  · simp only [if_pos hlast, rounds_nonpos hlast]
    exact .intro_pure hfirst _
  · simp only [if_neg hlast]
    split_ifs
    · exact (hrest hlast _ _).bind id fun h => .intro_pure h _
    · exact (hrest hlast _ _).bind id fun h => .intro_pure h _

theorem readEntries_decides (withAddress : Bool) {fuel : ℕ} {i : ℤ} (h₀ : 0 < i) (hf : i ≤ fuel)
    (off : ℕ) (stdtime nonstdtime : ℤ) :
    Decides (readEntries opts n withAddress fuel off i stdtime nonstdtime)
      (off + 4 * rounds i ≤ n) (entriesAt opts withAddress fuel off i stdtime nonstdtime) := by
  induction fuel generalizing off i stdtime nonstdtime with
  | zero => omega
  | succ fuel ih =>
      rw [readEntries, entriesAt]
      cases withAddress with
      | false =>
          exact readStamped_decides opts n none off h₀ stdtime nonstdtime
            fun hlast => ih (by omega) (by omega) (off + 4)
      | true =>
          simp only [if_true, true_and]
          rw [← add_rounds_le n h₀]
          refine (loadBytes_decides opts n off 4).bind (by omega) fun hfirst => ?_
          by_cases hlast : i - 4 ≤ 0
          · simp only [if_pos hlast, rounds_nonpos hlast]
            exact .intro_pure hfirst _
          · have height : i - 8 = i - 4 - 4 := by omega
            simp only [if_neg hlast, height]
            exact readStamped_decides opts n (some (bytesAt opts off 4)) (off + 4) (by omega)
              stdtime nonstdtime fun hlast => ih (by omega) (by omega) (off + 8)

theorem readTimes_decides {off : ℕ} (h : off + 1 < n) :
    Decides (readTimes opts n off) (TimesFit opts n off) (timesItem opts off) := by
  rw [readTimes, TimesFit, timesItem]
  refine (loadByte_decides opts n (off + 1)).bind (fun _ => h) fun _ => ?_
  refine (loadByte_decides opts n (off + 2)).bind And.left fun hpointer => ?_
  rw [ite_filled]
  generalize filled opts off 5 = i
  by_cases hpos : i ≤ 0
  · simp only [if_pos hpos]
    exact .intro_pure ⟨hpointer, Or.inl hpos⟩ _
  · simp only [hpointer, hpos, true_and, false_or]
    refine (loadByte_decides opts n (off + 3)).bind (by omega) fun _ => ?_
    refine (readEntries_decides opts n _ (by omega) (by omega) (off + 4) 0 0).bind id ?_
    exact fun h => .intro_pure h _

theorem readOption_decides (flood : Bool) {off : ℕ} (h : off + 1 < n) (oldRr : List UInt8) :
    Decides (readOption flood opts n off oldRr) (Fits flood opts n off oldRr)
      (optionItem flood opts off oldRr) := by
  rw [readOption, Fits, optionItem]
  refine (loadByte_decides opts n off).bind (fun _ => by omega) fun _ => ?_
  split_ifs
  · exact (readRoute_decides opts n h).bind id fun h => .intro_pure h _
  · exact readRecord_decides opts n flood h oldRr
  · exact (readTimes_decides opts n h).bind id fun h => .intro_pure h _
  · exact .intro_pure trivial _

theorem recordItem_snd (flood : Bool) (off : ℕ) (route : List UInt8) :
    (recordItem flood opts off route).2 =
      if 0 < filled opts off ipoptMinoff then
        bytesAt opts (off + 2) (filled opts off ipoptMinoff).toNat
      else route := by
  unfold recordItem
  by_cases hpos : 0 < filled opts off ipoptMinoff
  · rw [if_pos hpos, if_neg (by omega)]
    split_ifs with hsame
    · exact hsame.1.symm
    · rfl
  · rw [if_neg hpos, if_pos (by omega)]

theorem optionItem_snd (flood : Bool) (off : ℕ) (route : List UInt8) :
    (optionItem flood opts off route).2 = remembered opts off route := by
  unfold optionItem remembered
  by_cases hrr : byteAt opts off = ipoptRr
  · simp only [hrr, true_and]
    exact recordItem_snd opts flood off route
  · simp only [hrr, false_and, if_false]
    split_ifs <;> rfl

/-- All that the walk meets from `p` on is placed in the area. -/
def AllPlaced (flood : Bool) (p : Position) : Prop :=
  ∀ q, Meets opts p q → Placed flood opts n q

variable {opts n}

theorem allPlaced_last {flood : Bool} {p : Position} (h : p.next opts = none) :
    AllPlaced opts n flood p ↔ Placed flood opts n p := by
  refine forall_reflTransGen_iff.trans (and_iff_left ?_)
  intro c hc
  rw [h] at hc
  cases hc

theorem allPlaced_next {flood : Bool} {p p' : Position} (h : p.next opts = some p') :
    AllPlaced opts n flood p ↔ Placed flood opts n p ∧ AllPlaced opts n flood p' := by
  refine forall_reflTransGen_iff.trans (and_congr_right fun _ => ?_)
  constructor
  · exact fun hall => hall p' h
  · intro hall c hc
    obtain rfl := Option.some.inj (h.symm.trans hc)
    exact hall

section Cases
variable {flood : Bool} {off left : ℕ} {route : List UInt8}

theorem allPlaced_stop (hend : left = 0 ∨ byteAt opts off = ipoptEol) :
    AllPlaced opts n flood ⟨off, left, route⟩ ↔ left = 0 ∨ off < n := by
  rw [allPlaced_last (by rw [Position.next, if_pos hend]), Placed]
  dsimp only
  rcases hend with h0 | heol
  · simp [h0]
  · simp [heol]

variable (hend : ¬ (left = 0 ∨ byteAt opts off = ipoptEol))
include hend

theorem allPlaced_nop (hnop : byteAt opts off = ipoptNop) :
    AllPlaced opts n flood ⟨off, left, route⟩ ↔
      off < n ∧ AllPlaced opts n flood ⟨off + 1, left - 1, route⟩ := by
  rw [allPlaced_next (by rw [Position.next, if_neg hend, if_pos hnop]), Placed]
  simp [not_or.mp hend, hnop]

variable (hnop : byteAt opts off ≠ ipoptNop)
include hnop

theorem allPlaced_improper
    (hlen : (byteAt opts (off + 1)).toNat < 2 ∨ (byteAt opts (off + 1)).toNat > left) :
    AllPlaced opts n flood ⟨off, left, route⟩ ↔ off < n ∧ off + 1 < n := by
  have hproper : ¬ Proper opts ⟨off, left, route⟩ := not_not_intro hlen
  rw [allPlaced_last (by rw [Position.next, if_neg hend, if_neg hnop, if_neg hproper]), Placed]
  simp [not_or.mp hend, hnop, hproper]

theorem allPlaced_option
    (hlen : ¬ ((byteAt opts (off + 1)).toNat < 2 ∨ (byteAt opts (off + 1)).toNat > left)) :
    AllPlaced opts n flood ⟨off, left, route⟩ ↔
      (off < n ∧ off + 1 < n ∧ Fits flood opts n off route) ∧
        AllPlaced opts n flood ⟨off + (byteAt opts (off + 1)).toNat,
          left - (byteAt opts (off + 1)).toNat, remembered opts off route⟩ := by
  have hproper : Proper opts ⟨off, left, route⟩ := hlen
  rw [allPlaced_next (by rw [Position.next, if_neg hend, if_neg hnop, if_pos hproper]), Placed]
  simp [not_or.mp hend, hnop, hproper]

end Cases

theorem readWalk_decides (flood : Bool) (fuel off left : ℕ) (hf : left ≤ fuel)
    (route : List UInt8) :
    Decides (readWalk flood opts n fuel off left route) (AllPlaced opts n flood ⟨off, left, route⟩)
      (walkItems flood opts fuel off left route) := by
  induction fuel, off, left using walk_induction opts generalizing route with
  | zero off left =>
      have h0 : left = 0 := by omega
      rw [readWalk, if_pos h0, walkItems, allPlaced_stop (Or.inl h0)]
      exact .intro_pure (Or.inl h0) _
  | stop fuel off left hend =>
      rw [readWalk, walkItems_stop hend, allPlaced_stop hend]
      by_cases h0 : left = 0
      · rw [if_pos h0]
        exact .intro_pure (Or.inl h0) _
      · rw [if_neg h0]
        refine (loadByte_decides opts n off).bind (fun h => h.resolve_left h0) fun hoff => ?_
        rw [if_pos (hend.resolve_left h0)]
        exact .intro_pure (Or.inr hoff) _
  | nop fuel off left hend hnop ih =>
      obtain ⟨h0, heol⟩ := not_or.mp hend
      rw [readWalk, if_neg h0, walkItems_nop hend hnop, allPlaced_nop hend hnop]
      refine (loadByte_decides opts n off).bind And.left fun hoff => ?_
      rw [if_neg heol, if_pos hnop]
      exact (ih (by omega) route).bind And.right fun h => .intro_pure ⟨hoff, h⟩ _
  | improper fuel off left hend hnop hlen =>
      obtain ⟨h0, heol⟩ := not_or.mp hend
      rw [readWalk, if_neg h0, walkItems_improper hend hnop hlen,
        allPlaced_improper hend hnop hlen]
      refine (loadByte_decides opts n off).bind And.left fun hoff => ?_
      rw [if_neg heol, if_neg hnop]
      refine (loadByte_decides opts n (off + 1)).bind And.right fun hoff' => ?_
      rw [if_pos hlen]
      exact .intro_pure ⟨hoff, hoff'⟩ _
  | option fuel off left hend hnop hlen ih =>
      obtain ⟨h0, heol⟩ := not_or.mp hend
      rw [readWalk, if_neg h0, walkItems_option hend hnop hlen, allPlaced_option hend hnop hlen,
        optionItem_snd]
      refine (loadByte_decides opts n off).bind (fun h => h.1.1) fun hoff => ?_
      rw [if_neg heol, if_neg hnop]
      refine (loadByte_decides opts n (off + 1)).bind (fun h => h.1.2.1) fun hoff' => ?_
      rw [if_neg hlen]
      refine (readOption_decides opts n flood hoff' route).bind (fun h => h.1.2.2) fun hfits => ?_
      rw [optionItem_snd]
      exact (ih (by omega) (remembered opts off route)).bind And.right fun h =>
        .intro_pure ⟨⟨hoff, hoff', hfits⟩, h⟩ _

/-- With all accesses in bounds the output is that of `pr_options`. -/
theorem prOptions_of_readOptions (names : Names) {flood : Bool} {totlen : ℕ} {oldRr : List UInt8}
    {out : List (Option Item) × List UInt8}
    (h : readOptions flood opts n totlen oldRr = .ok out) :
    prOptions names flood opts totlen oldRr = (itemsText names out.1, out.2) := by
  have hd : Decides (readOptions flood opts n totlen oldRr)
      (AllPlaced opts n flood ⟨0, totlen, oldRr⟩) (prItems flood opts totlen oldRr) :=
    readWalk_decides flood totlen 0 totlen (Nat.le_refl _) oldRr
  rw [prOptions_eq_items, hd.eq_of_ok h]

/-- The walk ends by itself, whatever is in memory: rounds beyond the number of bytes are
never used. -/
theorem walkItems_fuel {flood : Bool} {fuel fuel' totlen : ℕ} (h : totlen ≤ fuel)
    (h' : totlen ≤ fuel') (off : ℕ) (oldRr : List UInt8) :
    walkItems flood opts fuel off totlen oldRr = walkItems flood opts fuel' off totlen oldRr := by
  induction fuel, off, totlen using walk_induction opts generalizing fuel' oldRr with
  | zero off totlen => rw [walkItems_stop (Or.inl (by omega)), walkItems_stop (Or.inl (by omega))]
  | stop fuel off totlen hend => rw [walkItems_stop hend, walkItems_stop hend]
  | nop fuel off totlen hend hnop ih =>
      obtain ⟨k, rfl⟩ : ∃ k, fuel' = k + 1 := ⟨fuel' - 1, by omega⟩
      rw [walkItems_nop hend hnop, walkItems_nop hend hnop,
        ih (by omega) (show _ ≤ k by omega) oldRr]
  | improper fuel off totlen hend hnop hlen =>
      obtain ⟨k, rfl⟩ : ∃ k, fuel' = k + 1 := ⟨fuel' - 1, by omega⟩
      rw [walkItems_improper hend hnop hlen, walkItems_improper hend hnop hlen]
  | option fuel off totlen hend hnop hlen ih =>
      obtain ⟨k, rfl⟩ : ∃ k, fuel' = k + 1 := ⟨fuel' - 1, by omega⟩
      rw [walkItems_option hend hnop hlen, walkItems_option hend hnop hlen,
        ih (by omega) (show _ ≤ k by omega) _]

end Bounds

/-- The true length of the option area. -/
def areaLength (sock : SockType) (ip : IpPart) : ℕ :=
  match sock with
  | .raw => ip.hlen - 20
  | .dgram => ip.olen - cmsghdrSize

/-- All accesses of `pr_options` are in bounds if and only if everything that the walk
meets lies in the option area; the loops end in any case. -/
theorem accesses_inside_iff {sock : SockType} {d : Datagram} {ip : IpPart}
    (_h : readIp sock d = some ip) (flood : Bool) (oldRr : List UInt8) :
    ((∃ out, readOptions flood ip.opts (areaLength sock ip) ip.olen oldRr = .ok out) ↔
      ∀ p, Meets ip.opts ⟨0, ip.olen, oldRr⟩ p →
        Placed flood ip.opts (areaLength sock ip) p) ∧
    readOptions flood ip.opts (areaLength sock ip) ip.olen oldRr ≠ .error .endless := by
  have hd : Decides (readOptions flood ip.opts (areaLength sock ip) ip.olen oldRr)
      (AllPlaced ip.opts (areaLength sock ip) flood ⟨0, ip.olen, oldRr⟩)
      (prItems flood ip.opts ip.olen oldRr) :=
    readWalk_decides flood ip.olen 0 ip.olen (Nat.le_refl _) oldRr
  exact ⟨hd.succeeds_iff, hd.ne_endless⟩

/-- A reply with a NOP and a record-route option of nine slots, one of them filled. -/
def recordedReply : Datagram where
  buf := 0x4f :: List.replicate 19 0 ++ ([1, 7, 39, 8] ++ List.replicate 36 10) ++
    List.replicate 8 0
  cc := 68

theorem accesses_inside_record :
    readIp .raw recordedReply = some ⟨60, 0, recordedReply.buf.drop 20, 40⟩ ∧
    ∀ p, Meets (recordedReply.buf.drop 20) ⟨0, 40, []⟩ p →
      Placed false (recordedReply.buf.drop 20) 40 p :=
  ⟨rfl, (@accesses_inside_iff .raw recordedReply ⟨60, 0, recordedReply.buf.drop 20, 40⟩ rfl
    false []).1.mp ⟨_, rfl⟩⟩

/-- A reply whose option area ends with the type byte of a record-route option. -/
def cutReply : Datagram where
  buf := 0x46 :: List.replicate 19 0 ++ [1, 1, 1, 7] ++ List.replicate 8 0
  cc := 32

/-- The control message for a record-route option whose slots are all filled. -/
def fullReply : Datagram where
  buf := List.replicate 64 0
  cc := 64
  cmsgs := [.retopts 56 ([1, 7, 39, 40] ++ List.replicate 52 10)]

/-- The length byte of a last option and the bytes behind a control message are read
outside the area. -/
theorem accesses_outside :
    readIp .raw cutReply = some ⟨24, 0, cutReply.buf.drop 20, 4⟩ ∧
      readOptions false (cutReply.buf.drop 20) 4 4 [] = .error (.read 4) ∧
    readIp .dgram fullReply = some ⟨0, 0, [1, 7, 39, 40] ++ List.replicate 52 10, 56⟩ ∧
      readOptions false ([1, 7, 39, 40] ++ List.replicate 52 10) (56 - cmsghdrSize) 56 [] =
        .error (.read 40) :=
  ⟨rfl, rfl, rfl, rfl⟩

end Iputils.OptionReads
