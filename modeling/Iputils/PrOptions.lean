import Iputils.PingOutput
import Iputils.ByteBuffer

/-!
# The IP options of a reply

`pr_options` walks through the option area and writes what it finds straight to
standard output, whatever the output format. The route of the last record-route
option is kept in a static variable, here the list of its bytes. The walk stops
at an end-of-list byte and at an option whose length does not fit.
-/
set_option autoImplicit false

namespace Iputils.PrOptions
open ByteBuffer PrintfText PingOutput

def ipoptEol : ℤ := 0
def ipoptNop : ℤ := 1
def ipoptRr : ℤ := 7
def ipoptTs : ℤ := 68
def ipoptLsrr : ℤ := 131
def ipoptSsrr : ℤ := 137
def ipoptMinoff : ℤ := 4
def ipoptTsTsonly : ℤ := 0

/-- `%x` of a nonnegative integer. -/
def hexText (x : ℤ) : List Char := Nat.toDigits 16 x.toNat

/-- Names of IPv4 addresses, by their four bytes. -/
abbrev Names := List UInt8 → Host

def addressText (names : Names) (address : List UInt8) : List Char :=
  if address = [0, 0, 0, 0] then "\t0.0.0.0".toList else '\t' :: (names address).text

/-- The loop over `n` addresses that source routes and recorded routes share. -/
def hopsText (names : Names) (opts : List UInt8) : ℕ → ℕ → List Char
  | 0, _ => []
  | n + 1, off =>
      addressText names (bytesAt opts off 4) ++ '\n' :: hopsText names opts n (off + 4)

/-- The number of rounds of a loop that counts down by four to zero. -/
def rounds (i : ℤ) : ℕ := ((i + 3) / 4).toNat

def routeText (names : Names) (opts : List UInt8) (off : ℕ) : List Char :=
  let kind := if byteAt opts off = ipoptSsrr then 'S' else 'L'
  let j := byteAt opts (off + 1)
  '\n' :: kind :: "SRR: ".toList ++
    if j > ipoptMinoff then hopsText names opts (rounds (j - ipoptMinoff)) (off + 2) else []

/-- The part of an option's area that its pointer says is filled. -/
def filled (opts : List UInt8) (off : ℕ) (minoff : ℤ) : ℤ :=
  min (byteAt opts (off + 1)) (byteAt opts (off + 2)) - minoff

/-- A recorded route, and what is remembered of it. -/
def recordText (names : Names) (flood : Bool) (opts : List UInt8) (off : ℕ) (oldRr : List UInt8) :
    List Char × List UInt8 :=
  let i := filled opts off ipoptMinoff
  let rr := bytesAt opts (off + 2) i.toNat
  if i ≤ 0 then ([], oldRr)
  else if rr = oldRr ∧ flood = false then ("\t(same route)".toList, oldRr)
  else ("\nRR: ".toList ++ hopsText names opts (rounds i) (off + 3), rr)

/-- One time of a timestamp option, relative to the one before if there is one. -/
def timeText (l stdtime nonstdtime : ℤ) : List Char :=
  if l ≥ 2147483648 then
    if nonstdtime = 0 then '\t' :: decText (l - 2147483648) ++ " absolute not-standard".toList
    else '\t' :: decText (l - 2147483648 - nonstdtime) ++ " not-standard".toList
  else if stdtime = 0 then '\t' :: decText l ++ " absolute".toList
  else '\t' :: decText (l - stdtime)

/-- The loop over the entries of a timestamp option; `i` bytes are left. -/
def timesText (names : Names) (opts : List UInt8) (withAddress : Bool) :
    ℕ → ℕ → ℤ → ℤ → ℤ → List Char
  | 0, _, _, _, _ => []
  | fuel + 1, off, i, stdtime, nonstdtime =>
      let head := if withAddress then addressText names (bytesAt opts off 4) else []
      let off := if withAddress then off + 4 else off
      let i := if withAddress then i - 4 else i
      if withAddress ∧ i ≤ 0 then head
      else
        let l := be32At opts off
        head ++ timeText l stdtime nonstdtime ++ '\n' ::
          if i - 4 ≤ 0 then []
          else if l ≥ 2147483648 then
            timesText names opts withAddress fuel (off + 4) (i - 4) stdtime (l - 2147483648)
          else timesText names opts withAddress fuel (off + 4) (i - 4) l nonstdtime

def timestampText (names : Names) (opts : List UInt8) (off : ℕ) : List Char :=
  let i := filled opts off 5
  let flags := byteAt opts (off + 3)
  if i ≤ 0 then []
  else
    "\nTS: ".toList ++
      timesText names opts (flags % 16 ≠ ipoptTsTsonly) i.toNat (off + 4) i 0 0 ++
      if flags / 16 ≠ 0 then "Unrecorded hops: ".toList ++ decText (flags / 16) ++ ['\n'] else []

/-- One option behind its type and length byte. -/
def optionText (names : Names) (flood : Bool) (opts : List UInt8) (off : ℕ) (oldRr : List UInt8) :
    List Char × List UInt8 :=
  let kind := byteAt opts off
  if kind = ipoptSsrr ∨ kind = ipoptLsrr then (routeText names opts off, oldRr)
  else if kind = ipoptRr then recordText names flood opts off oldRr
  else if kind = ipoptTs then (timestampText names opts off, oldRr)
  else ("\nunknown option ".toList ++ hexText kind, oldRr)

/-- The walk; every round shortens `totlen`, so `totlen` rounds are enough. -/
def walkOptions (names : Names) (flood : Bool) (opts : List UInt8) :
    ℕ → ℕ → ℕ → List UInt8 → List Char × List UInt8
  | 0, _, _, oldRr => ([], oldRr)
  | fuel + 1, off, totlen, oldRr =>
      let olen := (byteAt opts (off + 1)).toNat
      if totlen = 0 ∨ byteAt opts off = ipoptEol then ([], oldRr)
      else if byteAt opts off = ipoptNop then
        let (text, oldRr) := walkOptions names flood opts fuel (off + 1) (totlen - 1) oldRr
        ("\nNOP".toList ++ text, oldRr)
      else if olen < 2 ∨ olen > totlen then ([], oldRr)
      else
        let (text, oldRr) := optionText names flood opts off oldRr
        let (rest, oldRr) := walkOptions names flood opts fuel (off + olen) (totlen - olen) oldRr
        (text ++ rest, oldRr)

/-- The text written and the static record of the last route. -/
def prOptions (names : Names) (flood : Bool) (opts : List UInt8) (totlen : ℕ)
    (oldRr : List UInt8) : List Char × List UInt8 :=
  walkOptions names flood opts totlen 0 totlen oldRr

/-- Options that leave no trace: routes and times in which nothing is recorded. -/
def Empty (opts : List UInt8) (off : ℕ) : Prop :=
  byteAt opts off = ipoptRr ∧ filled opts off ipoptMinoff ≤ 0 ∨
    byteAt opts off = ipoptTs ∧ filled opts off 5 ≤ 0

/-- The walk meets nothing but empty options before it stops. -/
def SilentFrom (opts : List UInt8) : ℕ → ℕ → ℕ → Prop
  | 0, _, _ => True
  | fuel + 1, off, totlen =>
      let olen := (byteAt opts (off + 1)).toNat
      totlen = 0 ∨ byteAt opts off = ipoptEol ∨
        byteAt opts off ≠ ipoptNop ∧
          (olen < 2 ∨ olen > totlen ∨
            Empty opts off ∧ SilentFrom opts fuel (off + olen) (totlen - olen))

def Silent (opts : List UInt8) (totlen : ℕ) : Prop := SilentFrom opts totlen 0 totlen

/-- How the output of `pr_options` begins, if there is any. -/
def Conspicuous (text : List Char) : Prop :=
  (∃ rest, text = '\n' :: rest) ∨ ∃ rest, text = "\t(".toList ++ rest

theorem Conspicuous.append {text : List Char} (h : Conspicuous text) (rest : List Char) :
    Conspicuous (text ++ rest) := by
  rcases h with ⟨t, rfl⟩ | ⟨t, rfl⟩
  · exact Or.inl ⟨t ++ rest, rfl⟩
  · exact Or.inr ⟨t ++ rest, rfl⟩

theorem Conspicuous.ne_nil {text : List Char} (h : Conspicuous text) : text ≠ [] := by
  rcases h with ⟨t, rfl⟩ | ⟨t, rfl⟩ <;> simp

theorem conspicuous_newline (rest : List Char) : Conspicuous ('\n' :: rest) := Or.inl ⟨rest, rfl⟩

section Walk
variable (names : Names) (flood : Bool) (opts : List UInt8)

theorem optionText_empty {off : ℕ} (h : Empty opts off) (oldRr : List UInt8) :
    optionText names flood opts off oldRr = ([], oldRr) := by
  rcases h with ⟨hk, hf⟩ | ⟨hk, hf⟩
  · simp [optionText, hk, ipoptRr, ipoptSsrr, ipoptLsrr, recordText, hf]
  · simp [optionText, hk, ipoptRr, ipoptTs, ipoptSsrr, ipoptLsrr, timestampText, hf]

theorem optionText_conspicuous {off : ℕ} (h : ¬ Empty opts off) (oldRr : List UInt8) :
    Conspicuous (optionText names flood opts off oldRr).1 := by
  have hrr : byteAt opts off = ipoptRr → ¬ filled opts off ipoptMinoff ≤ 0 :=
    fun hk hf => h (Or.inl ⟨hk, hf⟩)
  have hts : byteAt opts off = ipoptTs → ¬ filled opts off 5 ≤ 0 :=
    fun hk hf => h (Or.inr ⟨hk, hf⟩)
  unfold optionText
  dsimp only
  split_ifs with hroute hr ht
  · exact conspicuous_newline _
  · unfold recordText
    dsimp only
    rw [if_neg (hrr hr)]
    split_ifs
    · exact Or.inr ⟨"same route)".toList, rfl⟩
    · exact conspicuous_newline _
  · unfold timestampText
    dsimp only
    rw [if_neg (hts ht)]
    exact conspicuous_newline _
  · exact conspicuous_newline _

section Option
variable {fuel off totlen : ℕ} (hend : ¬ (totlen = 0 ∨ byteAt opts off = ipoptEol))
  (hnop : byteAt opts off ≠ ipoptNop)
  (hlen : ¬ ((byteAt opts (off + 1)).toNat < 2 ∨ (byteAt opts (off + 1)).toNat > totlen))
include hend hnop hlen

/-- An option of a proper length is written, and the walk goes on behind it. -/
theorem walkOptions_option (oldRr : List UInt8) :
    walkOptions names flood opts (fuel + 1) off totlen oldRr =
      ((optionText names flood opts off oldRr).1 ++
        (walkOptions names flood opts fuel (off + (byteAt opts (off + 1)).toNat)
          (totlen - (byteAt opts (off + 1)).toNat) (optionText names flood opts off oldRr).2).1,
        (walkOptions names flood opts fuel (off + (byteAt opts (off + 1)).toNat)
          (totlen - (byteAt opts (off + 1)).toNat) (optionText names flood opts off oldRr).2).2) := by
  simp only [walkOptions, if_neg hend, if_neg hnop, if_neg hlen]

theorem silentFrom_option :
    SilentFrom opts (fuel + 1) off totlen ↔ Empty opts off ∧
      SilentFrom opts fuel (off + (byteAt opts (off + 1)).toNat)
        (totlen - (byteAt opts (off + 1)).toNat) := by
  have hend' := not_or.mp hend
  have hlen' := not_or.mp hlen
  simp only [SilentFrom, hend'.1, hend'.2, hlen'.1, hlen'.2, false_or, hnop, ne_eq,
    not_false_eq_true, true_and]

end Option

/-- The cases of the walk. It stops at the end, at an end-of-list byte and at an improper
length; otherwise it goes on behind a NOP or behind an option. -/
@[elab_as_elim]
theorem walk_induction {motive : ℕ → ℕ → ℕ → Prop}
    (zero : ∀ off totlen, motive 0 off totlen)
    (stop : ∀ fuel off totlen, totlen = 0 ∨ byteAt opts off = ipoptEol →
      motive (fuel + 1) off totlen)
    (nop : ∀ fuel off totlen, ¬ (totlen = 0 ∨ byteAt opts off = ipoptEol) →
      byteAt opts off = ipoptNop → motive fuel (off + 1) (totlen - 1) →
        motive (fuel + 1) off totlen)
    (improper : ∀ fuel off totlen, ¬ (totlen = 0 ∨ byteAt opts off = ipoptEol) →
      byteAt opts off ≠ ipoptNop →
      ((byteAt opts (off + 1)).toNat < 2 ∨ (byteAt opts (off + 1)).toNat > totlen) →
        motive (fuel + 1) off totlen)
    (option : ∀ fuel off totlen, ¬ (totlen = 0 ∨ byteAt opts off = ipoptEol) →
      byteAt opts off ≠ ipoptNop →
      ¬ ((byteAt opts (off + 1)).toNat < 2 ∨ (byteAt opts (off + 1)).toNat > totlen) →
      motive fuel (off + (byteAt opts (off + 1)).toNat)
        (totlen - (byteAt opts (off + 1)).toNat) → motive (fuel + 1) off totlen)
    (fuel off totlen : ℕ) : motive fuel off totlen := by
  induction fuel generalizing off totlen with
  | zero => exact zero off totlen
  | succ fuel ih =>
      by_cases hend : totlen = 0 ∨ byteAt opts off = ipoptEol
      · exact stop fuel off totlen hend
      by_cases hnop : byteAt opts off = ipoptNop
      · exact nop fuel off totlen hend hnop (ih _ _)
      by_cases hlen : (byteAt opts (off + 1)).toNat < 2 ∨ (byteAt opts (off + 1)).toNat > totlen
      · exact improper fuel off totlen hend hnop hlen
      · exact option fuel off totlen hend hnop hlen (ih _ _)

/-- The output is empty when the walk meets nothing else than empty options, and it is
conspicuous when it meets anything else. -/
theorem walkOptions_cases (fuel off totlen : ℕ) (oldRr : List UInt8) :
    (SilentFrom opts fuel off totlen →
      walkOptions names flood opts fuel off totlen oldRr = ([], oldRr)) ∧
    (¬ SilentFrom opts fuel off totlen →
      Conspicuous (walkOptions names flood opts fuel off totlen oldRr).1) := by
  induction fuel, off, totlen using walk_induction opts generalizing oldRr with
  | zero off totlen => exact ⟨fun _ => rfl, fun h => absurd trivial h⟩
  | stop fuel off totlen hend =>
      refine ⟨fun _ => by simp only [walkOptions, if_pos hend], fun h => absurd ?_ h⟩
      rcases hend with h0 | he
      · exact Or.inl h0
      · exact Or.inr (Or.inl he)
  | nop fuel off totlen hend hnop ih =>
      refine ⟨fun h => absurd h ?_, fun _ => ?_⟩
      · simp [SilentFrom, (not_or.mp hend).1, hnop]
        decide
      · simp only [walkOptions, if_neg hend, if_pos hnop]
        exact conspicuous_newline _
  | improper fuel off totlen hend hnop hlen =>
      refine ⟨fun _ => by simp only [walkOptions, if_neg hend, if_neg hnop, if_pos hlen],
        fun h => absurd ?_ h⟩
      refine Or.inr (Or.inr ⟨hnop, ?_⟩)
      rcases hlen with hl | hl
      · exact Or.inl hl
      · exact Or.inr (Or.inl hl)
  | option fuel off totlen hend hnop hlen ih =>
      have hrest := ih (optionText names flood opts off oldRr).2
      rw [walkOptions_option names flood opts hend hnop hlen,
        silentFrom_option opts hend hnop hlen]
      by_cases hempty : Empty opts off
      · have ho := optionText_empty names flood opts hempty oldRr
        rw [ho] at hrest ⊢
        simp only [hempty, true_and, List.nil_append]
        refine ⟨fun h => ?_, hrest.2⟩
        rw [hrest.1 h]
      · refine ⟨fun h => absurd h.1 hempty, fun _ => ?_⟩
        exact (optionText_conspicuous names flood opts hempty oldRr).append _

theorem prOptions_silent {totlen : ℕ} (h : Silent opts totlen) (oldRr : List UInt8) :
    prOptions names flood opts totlen oldRr = ([], oldRr) :=
  (walkOptions_cases names flood opts totlen 0 totlen oldRr).1 h

theorem prOptions_conspicuous {totlen : ℕ} (h : ¬ Silent opts totlen) (oldRr : List UInt8) :
    Conspicuous (prOptions names flood opts totlen oldRr).1 :=
  (walkOptions_cases names flood opts totlen 0 totlen oldRr).2 h

end Walk

end Iputils.PrOptions
