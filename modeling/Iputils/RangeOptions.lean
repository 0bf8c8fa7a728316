import Iputils.IntegerText

/-!
# The ranges of -Q and -F

`parsetos` and `parseflow` leave the text to `strtol` and `strtoul` and test the range
behind a conversion to `int`. The main result says which texts are taken for a number that
they do not denote.
-/
set_option autoImplicit false

namespace Iputils.RangeOptions
open MachineInt ScanText LineTimes HopTable PrintfText IntegerText

section Code

def tosMax : ℤ := 255

/-- `IPV6_FLOWINFO_FLOWLABEL` -/
def flowLabel : BitVec 64 := 0x000fffff

/-- The base, and the text that is converted. -/
def optionBody (str : List Char) : Base × List Char :=
  if hexStart str then (.sixteen, str.drop 2) else (.ten, str)

/-- `(int)` of the result of the conversion, and `ep`. -/
def readOption (conversion : Base → List Char → ℤ × List Char) (str : List Char) : ℤ × List Char :=
  let r := conversion (optionBody str).1 (optionBody str).2
  (i32 r.1, r.2)

def parsetos (str : List Char) : Except (List Char) ℤ :=
  let (tos, ep) := readOption strtol str
  if ep ≠ [] then .error ("bad TOS value: ".toList ++ str)
  else if tos > tosMax then
    .error ("the decimal value of TOS bits must be in range 0-255: ".toList ++ decText tos)
  else .ok tos

/-- The value is assigned to an `unsigned long` and returned as an `int`. -/
def parseflow (str : List Char) : Except (List Char) ℤ :=
  let (val, ep) := readOption strtoul str
  let val := BitVec.ofInt 64 val
  if ep ≠ [] then .error ("bad value for flowinfo: ".toList ++ str)
  else if val &&& ~~~flowLabel ≠ 0 then
    .error ("flow value is greater than 20 bits: ".toList ++ str)
  else .ok (i32 val.toNat)

example : parsetos "0x10".toList = .ok 16 := by decide +kernel
example : parseflow "1048575".toList = .ok 1048575 := by decide +kernel

end Code

section Meaning

/-- The decimal and hexadecimal numerals, each with its number. -/
inductive Numeral : List Char → ℕ → Prop
  | decimal {ds : List Char} (hne : ds ≠ []) (h : ∀ c ∈ ds, c.isDigit = true) :
      Numeral ds (digitsValue 10 ds)
  | hexadecimal {x : Char} {ds : List Char} (hx : x = 'x' ∨ x = 'X') (hne : ds ≠ [])
      (h : ∀ c ∈ ds, isHexDigit c = true) : Numeral ('0' :: x :: ds) (digitsValue 16 ds)

/-- A text that is accepted is a numeral of the number that is returned. -/
def Exact (parse : List Char → Except (List Char) ℤ) (bound : ℕ) (str : List Char) : Prop :=
  ∀ v, parse str = .ok v → ∃ n : ℕ, Numeral str n ∧ n ≤ bound ∧ v = n

/-- Nothing but digits is converted. -/
def Plain (str : List Char) : Prop := ∀ c ∈ (optionBody str).2, (optionBody str).1.digit c = true

/-- Something is converted, and if it is an integer, then the integer is refused or it is
written in digits alone and not too large. -/
def Unmistakable (Refused : ℤ → Prop) (bound : ℕ) (str : List Char) : Prop :=
  (optionBody str).2 ≠ [] ∧
    ∀ n, scanInteger (optionBody str).1 (optionBody str).2 = some (n, []) →
      Refused n ∨ Plain str ∧ n ≤ bound

/-- The integers that `-Q` refuses: those of `long` whose low word is a positive `int` beyond
the range. -/
def TosRefused (n : ℤ) : Prop :=
  (-2 ^ 63 ≤ n ∧ n < 2 ^ 63) ∧ 255 < n % 2 ^ 32 ∧ n % 2 ^ 32 < 2 ^ 31

/-- The integers that `-F` refuses: those beyond `unsigned long`, and those with a low word
beyond the range. -/
def FlowRefused (n : ℤ) : Prop := 2 ^ 64 ≤ |n| ∨ 0xfffff < n % 2 ^ 32

variable {str : List Char} {n : ℕ}

theorem numeral_iff :
    Numeral str n ↔ (optionBody str).2 ≠ [] ∧ Plain str ∧
      n = digitsValue (optionBody str).1.radix (optionBody str).2 := by
  constructor
  · intro h
    cases h with
    | decimal hne h =>
        have hbody : optionBody str = (.ten, str) :=
          if_neg (by rw [@hexStart_digits .ten _ h]; decide)
        unfold Plain
        rw [hbody]
        exact ⟨hne, h, rfl⟩
    | @hexadecimal x ds hx hne h =>
        have hbody : optionBody ('0' :: x :: ds) = (.sixteen, ds) :=
          if_pos (by rcases hx with rfl | rfl <;> rfl)
        unfold Plain
        rw [hbody]
        exact ⟨hne, h, rfl⟩
  · rintro ⟨hne, hplain, rfl⟩
    unfold Plain at hplain
    by_cases hstart : hexStart str = true
    · have hbody : optionBody str = (.sixteen, str.drop 2) := if_pos hstart
      rw [hbody] at hne hplain ⊢
      obtain ⟨x, ds, rfl, hx⟩ := hexStart_eq_true.mp hstart
      exact .hexadecimal hx hne hplain
    · have hbody : optionBody str = (.ten, str) := if_neg hstart
      rw [hbody] at hne hplain ⊢
      exact .decimal hne hplain

/-- A numeral is converted to its number. -/
theorem scan_plain (hne : (optionBody str).2 ≠ []) (h : Plain str) :
    scanInteger (optionBody str).1 (optionBody str).2 =
      some ((digitsValue (optionBody str).1.radix (optionBody str).2 : ℤ), []) :=
  scanInteger_digits hne h

end Meaning

section Family
variable {parse : List Char → Except (List Char) ℤ} {value : ℤ → ℤ} {accepted : ℤ → Prop}
  {bound : ℕ} {str : List Char}

/-- Both functions return what they read if nothing is left of the string and it is accepted.
They differ in what they do to an integer and in what they accept. -/
def Parses (parse : List Char → Except (List Char) ℤ) (value : ℤ → ℤ) (accepted : ℤ → Prop) :
    Prop :=
  ∀ s v, parse s = .ok v ↔ (readOption (strto value) s).2 = [] ∧
    accepted (readOption (strto value) s).1 ∧ v = (readOption (strto value) s).1

theorem Exact.unmistakable (h : Exact parse bound str) (hparse : Parses parse value accepted)
    (hzero : accepted 0) : Unmistakable (fun n => ¬ accepted (i32 (value n))) bound str := by
  refine ⟨fun hnil => ?_, fun n hn => ?_⟩
  · have hread : readOption (strto value) str = (0, []) := by
      unfold readOption strto
      rw [hnil, scanInteger_nil]
      rfl
    obtain ⟨n, hn, -⟩ := h 0 ((hparse str 0).mpr (by rw [hread]; exact ⟨rfl, hzero, rfl⟩))
    exact (numeral_iff.mp hn).1 hnil
  · have hread : readOption (strto value) str = (i32 (value n), []) := by
      unfold readOption strto
      rw [hn]
    by_cases haccepted : accepted (i32 (value n))
    · right
      obtain ⟨m, hm, hle, -⟩ :=
        h _ ((hparse str _).mpr (by rw [hread]; exact ⟨rfl, haccepted, rfl⟩))
      obtain ⟨hne, hplain, hvalue⟩ := numeral_iff.mp hm
      rw [scan_plain hne hplain, ← hvalue] at hn
      obtain rfl := (Prod.mk.inj (Option.some.inj hn)).1
      exact ⟨hplain, by exact_mod_cast hle⟩
    · exact Or.inl haccepted

theorem Unmistakable.exact (h : Unmistakable (fun n => ¬ accepted (i32 (value n))) bound str)
    (hparse : Parses parse value accepted) (hsmall : ∀ n : ℕ, n ≤ bound → i32 (value n) = n) :
    Exact parse bound str := by
  obtain ⟨hne, hall⟩ := h
  intro v hv
  obtain ⟨hwhole, haccepted, rfl⟩ := (hparse str v).mp hv
  obtain ⟨n, hn⟩ := (strto_whole.mp hwhole).resolve_left hne
  have hread : (readOption (strto value) str).1 = i32 (value n) := by
    unfold readOption strto
    rw [hn]
  rw [hread] at haccepted ⊢
  obtain ⟨hplain, hle⟩ := (hall n hn).resolve_left (not_not.mpr haccepted)
  rw [scan_plain hne hplain] at hn
  obtain rfl := (Prod.mk.inj (Option.some.inj hn)).1
  have hle' : digitsValue (optionBody str).1.radix (optionBody str).2 ≤ bound := by
    exact_mod_cast hle
  exact ⟨_, numeral_iff.mpr ⟨hne, hplain, rfl⟩, hle', hsmall _ hle'⟩

theorem exact_iff_unmistakable (hparse : Parses parse value accepted)
    (hsmall : ∀ n : ℕ, n ≤ bound → i32 (value n) = n) (hzero : accepted 0) :
    Exact parse bound str ↔ Unmistakable (fun n => ¬ accepted (i32 (value n))) bound str :=
  ⟨fun h => h.unmistakable hparse hzero, fun h => h.exact hparse hsmall⟩

end Family

section Ranges

/-- The mask leaves nothing of a number of 20 bits. -/
theorem and_not_flowLabel {x : BitVec 64} : x &&& ~~~flowLabel = 0 ↔ x.toNat < 2 ^ 20 := by
  constructor
  · intro h
    refine Nat.lt_pow_two_of_testBit _ fun i hi => ?_
    by_cases hlt : i < 64
    · have hbit := congrArg (fun y : BitVec 64 => y.getLsbD i) h
      have hmask : flowLabel.getLsbD i = false :=
        Nat.testBit_lt_two_pow (lt_of_lt_of_le (by decide) (Nat.pow_le_pow_right (by decide) hi))
      simp only [BitVec.getLsbD_and, BitVec.getLsbD_not, hmask, hlt, decide_true, Bool.not_false,
        Bool.and_true] at hbit
      exact hbit.trans (BitVec.getLsbD_zero (i := i))
    · exact x.getLsbD_of_ge i (not_lt.mp hlt)
  · intro h
    refine BitVec.eq_of_getLsbD_eq fun i hi => ?_
    by_cases hlow : i < 20
    · have hmask : flowLabel.getLsbD i = true := by
        have hall : ∀ i < 20, flowLabel.getLsbD i = true := by decide
        exact hall i hlow
      simp [hmask]
    · have hbit : x.getLsbD i = false :=
        Nat.testBit_lt_two_pow
          (lt_of_lt_of_le h (Nat.pow_le_pow_right (by decide) (not_lt.mp hlow)))
      simp [hbit]

def TosAccepted (v : ℤ) : Prop := v ≤ tosMax

def FlowAccepted (v : ℤ) : Prop := 0 ≤ v ∧ v ≤ 0xfffff

theorem i32_range (x : ℤ) : -2147483648 ≤ i32 x ∧ i32 x < 2147483648 := by
  unfold i32
  omega

/-- The flow label of an `int`. -/
theorem flow_accepted {v : ℤ} (h : -2147483648 ≤ v ∧ v < 2147483648) :
    BitVec.ofInt 64 v &&& ~~~flowLabel = 0 ↔ FlowAccepted v := by
  rw [FlowAccepted, and_not_flowLabel, BitVec.toNat_ofInt]
  omega

theorem parsetos_ok : Parses parsetos longClamp TosAccepted := by
  intro s v
  unfold parsetos strtol TosAccepted
  dsimp only
  split_ifs with hep hmax
  · simp [hep]
  · simp [hmax]
  · simp [not_not.mp hep, not_lt.mp hmax, eq_comm]

theorem parseflow_ok : Parses parseflow ulongClamp FlowAccepted := by
  intro s v
  have hrange : -2147483648 ≤ (readOption (strto ulongClamp) s).1 ∧
      (readOption (strto ulongClamp) s).1 < 2147483648 := i32_range _
  unfold parseflow strtoul
  dsimp only
  rw [← flow_accepted hrange]
  split_ifs with hep hbits
  · simp [hep]
  · exact iff_of_false (fun h => by cases h) fun h => hbits h.2.1
  · have hflow := (flow_accepted hrange).mp (not_not.mp hbits)
    have hvalue : i32 (BitVec.ofInt 64 (readOption (strto ulongClamp) s).1).toNat =
        (readOption (strto ulongClamp) s).1 := by
      rw [BitVec.toNat_ofInt]
      unfold i32
      omega
    rw [hvalue]
    simp [not_not.mp hep, not_not.mp hbits, eq_comm]

theorem tosRefused_iff (n : ℤ) : ¬ TosAccepted (i32 (longClamp n)) ↔ TosRefused n := by
  unfold TosAccepted i32 longClamp tosMax TosRefused
  omega

theorem flowRefused_iff (n : ℤ) :
    ¬ FlowAccepted (i32 (ulongClamp n)) ↔ FlowRefused n := by
  unfold FlowAccepted i32 ulongClamp u64 FlowRefused
  split_ifs with h
  · omega
  · exact iff_of_true (by omega) (Or.inl (not_lt.mp h))

/-- `-Q` and `-F` return the number of a numeral of their range, except for a text that is
empty behind its `0x` and for one that the library reads as an integer which is not refused
though it is too large or written with blanks, a sign or a second `0x`. -/
theorem ranges_exact_iff (str : List Char) :
    (Exact parsetos 255 str ↔ Unmistakable TosRefused 255 str) ∧
      (Exact parseflow 0xfffff str ↔ Unmistakable FlowRefused 0xfffff str) := by
  constructor
  · have hsmall : ∀ n : ℕ, n ≤ 255 → i32 (longClamp n) = n := by
      intro n hn
      unfold i32 longClamp
      omega
    rw [exact_iff_unmistakable parsetos_ok hsmall (show (0 : ℤ) ≤ tosMax by decide)]
    simp only [Unmistakable, tosRefused_iff]
  · have hsmall : ∀ n : ℕ, n ≤ 0xfffff → i32 (ulongClamp n) = n := by
      intro n hn
      unfold i32 ulongClamp u64
      rw [if_pos (by rw [Nat.abs_cast]; omega)]
      omega
    rw [exact_iff_unmistakable parseflow_ok hsmall ⟨le_rfl, by decide⟩]
    simp only [Unmistakable, flowRefused_iff]

/-- 2 to the 32nd is taken for 0. -/
theorem word_taken_for_zero :
    ¬ ∀ str, Exact parsetos 255 str ∧ Exact parseflow 0xfffff str := by
  intro h
  obtain ⟨n, hn, hle, hzero⟩ := (h "4294967296".toList).1 0 (by decide +kernel)
  have hvalue := (numeral_iff.mp hn).2.2
  rw [show digitsValue _ _ = 4294967296 by decide +kernel] at hvalue
  omega

end Ranges

end Iputils.RangeOptions
