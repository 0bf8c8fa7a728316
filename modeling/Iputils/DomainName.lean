import Mathlib.Data.List.Basic
import Mathlib.Tactic.SplitIfs

/-!
# Names in the domain name system

A name as RFC 1035 sends it: each label behind an octet with its length, and a zero octet
for the root at the end. Nothing is compressed here. A name that is read from the front of
a message is the one that was written there, whatever follows it.
-/
set_option autoImplicit false

namespace Iputils.DomainName

/-- One to 63 octets. -/
structure Label where
  bytes : List UInt8
  pos : 0 < bytes.length
  short : bytes.length ≤ 63
deriving DecidableEq

/-- The length octet and the label. -/
def Label.octets (l : Label) : List UInt8 := UInt8.ofNat l.bytes.length :: l.bytes

def wireForm (ls : List Label) : List UInt8 := ls.flatMap Label.octets ++ [0]

/-- The number of octets of the name at the front, and its labels. Each round takes one label,
so as many rounds as octets are enough. -/
def readLabels : ℕ → List UInt8 → Option (ℕ × List (List UInt8))
  | 0, _ => none
  | _ + 1, [] => none
  | fuel + 1, c :: rest =>
      if c = 0 then some (1, [])
      else if c.toNat ≤ 63 ∧ c.toNat ≤ rest.length then
        (readLabels fuel (rest.drop c.toNat)).map fun r =>
          (r.1 + c.toNat + 1, rest.take c.toNat :: r.2)
      else none

theorem Label.toNat_length (l : Label) : (UInt8.ofNat l.bytes.length).toNat = l.bytes.length := by
  have hshort := l.short
  rw [UInt8.toNat_ofNat']
  omega

theorem Label.octet_ne_zero (l : Label) : UInt8.ofNat l.bytes.length ≠ 0 := by
  intro h
  have hlength := l.toNat_length
  have hpos := l.pos
  rw [h] at hlength
  exact Nat.ne_of_lt hpos hlength

theorem wireForm_cons (l : Label) (ls : List Label) :
    wireForm (l :: ls) = UInt8.ofNat l.bytes.length :: (l.bytes ++ wireForm ls) := by
  rw [wireForm, List.flatMap_cons, List.append_assoc]
  rfl

/-- A name is read back, and nothing behind it. -/
theorem readLabels_wireForm (ls : List Label) (tail : List UInt8) {fuel : ℕ}
    (h : ls.length < fuel) :
    readLabels fuel (wireForm ls ++ tail) =
      some ((wireForm ls).length, ls.map Label.bytes) := by
  induction ls generalizing fuel with
  | nil =>
      obtain ⟨fuel, rfl⟩ := Nat.exists_eq_add_one_of_ne_zero (Nat.ne_zero_of_lt h)
      rfl
  | cons l ls ih =>
      obtain ⟨fuel, rfl⟩ := Nat.exists_eq_add_one_of_ne_zero (Nat.ne_zero_of_lt h)
      rw [wireForm_cons, List.cons_append, readLabels, if_neg l.octet_ne_zero, l.toNat_length,
        List.append_assoc, if_pos ⟨l.short, by rw [List.length_append]; omega⟩,
        List.drop_left, List.take_left, ih (Nat.lt_of_succ_lt_succ h), Option.map_some,
        List.length_cons, List.length_append, List.map_cons, Nat.add_comm l.bytes.length]

theorem readLabels_pos {fuel n : ℕ} {bytes : List UInt8} {ls : List (List UInt8)}
    (h : readLabels fuel bytes = some (n, ls)) : 0 < n := by
  rcases fuel with _ | fuel
  · cases h
  rcases bytes with _ | ⟨c, rest⟩
  · cases h
  unfold readLabels at h
  split_ifs at h
  · obtain ⟨rfl, -⟩ := Prod.mk.inj (Option.some.inj h)
    exact Nat.one_pos
  · obtain ⟨r, -, hr⟩ := Option.map_eq_some_iff.mp h
    obtain ⟨rfl, -⟩ := Prod.mk.inj hr
    exact Nat.succ_pos _

section Text

def dot : UInt8 := 46

def label? (bytes : List UInt8) : Option Label :=
  if h : 0 < bytes.length ∧ bytes.length ≤ 63 then some ⟨bytes, h.1, h.2⟩ else none

/-- The labels of a name that is written with dots and without escapes. A dot at the end is
that of the root. -/
def textLabels (name : List UInt8) : Option (List Label) :=
  let name := if name.getLast? = some dot then name.dropLast else name
  if name = [] then some [] else (name.splitOn dot).mapM label?

example : (textLabels [97, 46, 98, 46]).map (·.map Label.bytes) = some [[97], [98]] := by decide

end Text

end Iputils.DomainName
