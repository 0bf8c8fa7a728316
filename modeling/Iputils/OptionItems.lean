import Iputils.PrOptions

/-!
# What pr_options prints, option by option

The output of `pr_options` cannot be read back, since the names in it are arbitrary.
This module computes what is printed before it becomes text: one item for each option
that the walk meets, with its addresses and times. The text is a function of the items.
-/
set_option autoImplicit false

namespace Iputils.OptionItems
open ByteBuffer PrintfText PingOutput PrOptions

/-- The bytes of an IPv4 address in memory. -/
abbrev Address := List UInt8

/-- A printed time. If it is not absolute, it is the difference to the time before. -/
structure Stamp where
  nonstandard : Bool
  absolute : Bool
  value : ℤ
deriving Repr, DecidableEq

structure Entry where
  address : Option Address
  stamp : Option Stamp
deriving Repr, DecidableEq

inductive Item
  | nop
  | route (strict : Bool) (hops : List Address)
  | same
  | record (hops : List Address)
  | times (entries : List Entry) (unrecorded : ℤ)
  | unknown (kind : ℤ)
deriving Repr, DecidableEq

def hopsAt (opts : List UInt8) : ℕ → ℕ → List Address
  | 0, _ => []
  | n + 1, off => bytesAt opts off 4 :: hopsAt opts n (off + 4)

def routeItem (opts : List UInt8) (off : ℕ) : Item :=
  let j := byteAt opts (off + 1)
  .route (decide (byteAt opts off = ipoptSsrr))
    (if j > ipoptMinoff then hopsAt opts (rounds (j - ipoptMinoff)) (off + 2) else [])

/-- A recorded route, and what is remembered of it. -/
def recordItem (flood : Bool) (opts : List UInt8) (off : ℕ) (oldRr : List UInt8) :
    Option Item × List UInt8 :=
  let i := filled opts off ipoptMinoff
  let rr := bytesAt opts (off + 2) i.toNat
  if i ≤ 0 then (none, oldRr)
  else if rr = oldRr ∧ flood = false then (some .same, oldRr)
  else (some (.record (hopsAt opts (rounds i) (off + 3))), rr)

def stampOf (l stdtime nonstdtime : ℤ) : Stamp :=
  if l ≥ 2147483648 then
    if nonstdtime = 0 then ⟨true, true, l - 2147483648⟩
    else ⟨true, false, l - 2147483648 - nonstdtime⟩
  else if stdtime = 0 then ⟨false, true, l⟩
  else ⟨false, false, l - stdtime⟩

/-- The loop over the entries of a timestamp option; `i` bytes are left. -/
def entriesAt (opts : List UInt8) (withAddress : Bool) : ℕ → ℕ → ℤ → ℤ → ℤ → List Entry
  | 0, _, _, _, _ => []
  | fuel + 1, off, i, stdtime, nonstdtime =>
      let address := if withAddress then some (bytesAt opts off 4) else none
      let off := if withAddress then off + 4 else off
      let i := if withAddress then i - 4 else i
      if withAddress ∧ i ≤ 0 then [⟨address, none⟩]
      else
        let l := be32At opts off
        ⟨address, some (stampOf l stdtime nonstdtime)⟩ ::
          if i - 4 ≤ 0 then []
          else if l ≥ 2147483648 then
            entriesAt opts withAddress fuel (off + 4) (i - 4) stdtime (l - 2147483648)
          else entriesAt opts withAddress fuel (off + 4) (i - 4) l nonstdtime

def timesItem (opts : List UInt8) (off : ℕ) : Option Item :=
  let i := filled opts off 5
  let flags := byteAt opts (off + 3)
  if i ≤ 0 then none
  else
    some (.times (entriesAt opts (flags % 16 ≠ ipoptTsTsonly) i.toNat (off + 4) i 0 0) (flags / 16))

/-- What is printed for one option; nothing if nothing is recorded in it. -/
def optionItem (flood : Bool) (opts : List UInt8) (off : ℕ) (oldRr : List UInt8) :
    Option Item × List UInt8 :=
  let kind := byteAt opts off
  if kind = ipoptSsrr ∨ kind = ipoptLsrr then (some (routeItem opts off), oldRr)
  else if kind = ipoptRr then recordItem flood opts off oldRr
  else if kind = ipoptTs then (timesItem opts off, oldRr)
  else (some (.unknown kind), oldRr)

def walkItems (flood : Bool) (opts : List UInt8) :
    ℕ → ℕ → ℕ → List UInt8 → List (Option Item) × List UInt8
  | 0, _, _, oldRr => ([], oldRr)
  | fuel + 1, off, totlen, oldRr =>
      let olen := (byteAt opts (off + 1)).toNat
      if totlen = 0 ∨ byteAt opts off = ipoptEol then ([], oldRr)
      else if byteAt opts off = ipoptNop then
        let (items, oldRr) := walkItems flood opts fuel (off + 1) (totlen - 1) oldRr
        (some .nop :: items, oldRr)
      else if olen < 2 ∨ olen > totlen then ([], oldRr)
      else
        let (item, oldRr) := optionItem flood opts off oldRr
        let (items, oldRr) := walkItems flood opts fuel (off + olen) (totlen - olen) oldRr
        (item :: items, oldRr)

/-- The items that one call of `pr_options` prints and the static record of the last route. -/
def prItems (flood : Bool) (opts : List UInt8) (totlen : ℕ) (oldRr : List UInt8) :
    List (Option Item) × List UInt8 :=
  walkItems flood opts totlen 0 totlen oldRr

section Walk
variable {flood : Bool} {opts : List UInt8} {fuel off totlen : ℕ}

theorem walkItems_stop (h : totlen = 0 ∨ byteAt opts off = ipoptEol) (oldRr : List UInt8) :
    walkItems flood opts fuel off totlen oldRr = ([], oldRr) := by
  cases fuel with
  | zero => rfl
  | succ fuel => rw [walkItems, if_pos h]

variable (hend : ¬ (totlen = 0 ∨ byteAt opts off = ipoptEol))
include hend

theorem walkItems_nop (hnop : byteAt opts off = ipoptNop) (oldRr : List UInt8) :
    walkItems flood opts (fuel + 1) off totlen oldRr =
      (some .nop :: (walkItems flood opts fuel (off + 1) (totlen - 1) oldRr).1,
        (walkItems flood opts fuel (off + 1) (totlen - 1) oldRr).2) := by
  rw [walkItems, if_neg hend, if_pos hnop]

variable (hnop : byteAt opts off ≠ ipoptNop)
include hnop

theorem walkItems_improper
    (hlen : (byteAt opts (off + 1)).toNat < 2 ∨ (byteAt opts (off + 1)).toNat > totlen)
    (oldRr : List UInt8) :
    walkItems flood opts (fuel + 1) off totlen oldRr = ([], oldRr) := by
  rw [walkItems, if_neg hend, if_neg hnop, if_pos hlen]

theorem walkItems_option
    (hlen : ¬ ((byteAt opts (off + 1)).toNat < 2 ∨ (byteAt opts (off + 1)).toNat > totlen))
    (oldRr : List UInt8) :
    walkItems flood opts (fuel + 1) off totlen oldRr =
      ((optionItem flood opts off oldRr).1 ::
        (walkItems flood opts fuel (off + (byteAt opts (off + 1)).toNat)
          (totlen - (byteAt opts (off + 1)).toNat) (optionItem flood opts off oldRr).2).1,
        (walkItems flood opts fuel (off + (byteAt opts (off + 1)).toNat)
          (totlen - (byteAt opts (off + 1)).toNat) (optionItem flood opts off oldRr).2).2) := by
  rw [walkItems, if_neg hend, if_neg hnop, if_neg hlen]

end Walk

/-! ## The text of the items -/

section Text
variable (names : Names)

def hopLines (hops : List Address) : List Char :=
  (hops.map fun address => addressText names address ++ ['\n']).flatten

def Stamp.text (s : Stamp) : List Char :=
  '\t' :: decText s.value ++ (if s.absolute then " absolute".toList else []) ++
    if s.nonstandard then " not-standard".toList else []

def Entry.text (e : Entry) : List Char :=
  (match e.address with
    | some address => addressText names address
    | none => []) ++
  match e.stamp with
  | some s => s.text ++ ['\n']
  | none => []

def Item.text : Item → List Char
  | .nop => "\nNOP".toList
  | .route strict hops =>
      '\n' :: (if strict then 'S' else 'L') :: "SRR: ".toList ++ hopLines names hops
  | .same => "\t(same route)".toList
  | .record hops => "\nRR: ".toList ++ hopLines names hops
  | .times entries unrecorded =>
      "\nTS: ".toList ++ (entries.map (Entry.text names)).flatten ++
        if unrecorded ≠ 0 then "Unrecorded hops: ".toList ++ decText unrecorded ++ ['\n'] else []
  | .unknown kind => "\nunknown option ".toList ++ hexText kind

def itemText : Option Item → List Char
  | some item => item.text names
  | none => []

def itemsText (items : List (Option Item)) : List Char := (items.map (itemText names)).flatten

@[simp] theorem itemsText_nil : itemsText names [] = [] := rfl

@[simp] theorem itemsText_cons (item : Option Item) (items : List (Option Item)) :
    itemsText names (item :: items) = itemText names item ++ itemsText names items := rfl

variable (opts : List UInt8)

theorem hopsText_eq (n off : ℕ) :
    hopsText names opts n off = hopLines names (hopsAt opts n off) := by
  induction n generalizing off with
  | zero => rfl
  | succ n ih => simp [hopsText, hopsAt, hopLines, ih]

theorem routeText_eq (off : ℕ) :
    routeText names opts off = (routeItem opts off).text names := by
  unfold routeText routeItem Item.text
  dsimp only
  split_ifs <;> simp_all [hopsText_eq, hopLines]

theorem recordText_eq (flood : Bool) (off : ℕ) (oldRr : List UInt8) :
    recordText names flood opts off oldRr =
      (itemText names (recordItem flood opts off oldRr).1,
        (recordItem flood opts off oldRr).2) := by
  unfold recordText recordItem
  dsimp only
  split_ifs
  · rfl
  · rfl
  · rw [hopsText_eq]
    rfl

theorem timeText_eq (l stdtime nonstdtime : ℤ) :
    timeText l stdtime nonstdtime = (stampOf l stdtime nonstdtime).text := by
  unfold timeText stampOf
  split_ifs <;> simp [Stamp.text]

theorem timesText_eq (withAddress : Bool) (fuel off : ℕ) (i stdtime nonstdtime : ℤ) :
    timesText names opts withAddress fuel off i stdtime nonstdtime =
      ((entriesAt opts withAddress fuel off i stdtime nonstdtime).map
        (Entry.text names)).flatten := by
  induction fuel generalizing off i stdtime nonstdtime with
  | zero => rfl
  | succ fuel ih =>
      unfold timesText entriesAt
      dsimp only
      cases withAddress with
      | false =>
          simp only [Bool.false_eq_true, if_false, false_and, List.nil_append]
          split_ifs <;> simp [Entry.text, timeText_eq, ih]
      | true =>
          simp only [if_true, true_and]
          split_ifs <;> simp [Entry.text, timeText_eq, ih]

theorem timestampText_eq (off : ℕ) :
    timestampText names opts off = itemText names (timesItem opts off) := by
  by_cases h : filled opts off 5 ≤ 0
  · rw [timestampText, timesItem, if_pos h, if_pos h]
    rfl
  · rw [timestampText, timesItem, if_neg h, if_neg h, timesText_eq]
    rfl

theorem optionText_eq (flood : Bool) (off : ℕ) (oldRr : List UInt8) :
    optionText names flood opts off oldRr =
      (itemText names (optionItem flood opts off oldRr).1,
        (optionItem flood opts off oldRr).2) := by
  unfold optionText optionItem
  dsimp only
  split_ifs
  · rw [routeText_eq]
    rfl
  · exact recordText_eq names opts flood off oldRr
  · rw [timestampText_eq]
  · rfl

theorem walkOptions_eq_items (flood : Bool) (fuel off totlen : ℕ) (oldRr : List UInt8) :
    walkOptions names flood opts fuel off totlen oldRr =
      (itemsText names (walkItems flood opts fuel off totlen oldRr).1,
        (walkItems flood opts fuel off totlen oldRr).2) := by
  induction fuel generalizing off totlen oldRr with
  | zero => rfl
  | succ fuel ih =>
      unfold walkOptions walkItems
      dsimp only
      split_ifs
      · rfl
      · rw [ih]
        rfl
      · rfl
      · rw [optionText_eq, ih]
        rfl

/-- The output of `pr_options` is the text of its items. -/
theorem prOptions_eq_items (flood : Bool) (totlen : ℕ) (oldRr : List UInt8) :
    prOptions names flood opts totlen oldRr =
      (itemsText names (prItems flood opts totlen oldRr).1, (prItems flood opts totlen oldRr).2) :=
  walkOptions_eq_items names opts flood totlen 0 totlen oldRr

end Text

end Iputils.OptionItems
