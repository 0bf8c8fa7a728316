import Iputils.OptionItems

/-!
# Options as they are recorded and as they are printed

The options of an IP header as RFC 791 defines them, with their bytes: an area is a
sequence of NOP, source-route, record-route and timestamp options, with padding behind an
end-of-list byte. The main result compares what `pr_options` prints for each of them with
what is recorded in it. The loop over a source route starts one byte too early, at the
pointer, so that its addresses are right only if all their bytes equal the pointer.
-/
set_option autoImplicit false

namespace Iputils.OptionDecoding
open ByteBuffer PrOptions OptionItems

/-- The four bytes of an address or of a time. -/
abbrev Quad := { q : List UInt8 // q.length = 4 }

def quadBytes (qs : List Quad) : List UInt8 := (qs.map Subtype.val).flatten

/-- The data of a source-route or record-route option. The pointer stands behind the first
`reached` slots. -/
structure Route where
  slots : List Quad
  reached : ℕ
  reached_le : reached ≤ slots.length
deriving Repr, DecidableEq

inductive StampFlag
  | only | recorded | prespecified
deriving Repr, DecidableEq

def StampFlag.code : StampFlag → ℤ
  | .only => 0
  | .recorded => 1
  | .prespecified => 3

structure Slot where
  address : Option Quad
  time : Quad
deriving Repr, DecidableEq

def Slot.bytes (s : Slot) : List UInt8 :=
  match s.address with
  | some address => address.val ++ s.time.val
  | none => s.time.val

/-- The data of a timestamp option. Its slots have addresses unless the flag is `only`. -/
structure Stamps where
  flag : StampFlag
  overflow : ℕ
  overflow_lt : overflow < 16
  slots : List Slot
  addressed : ∀ s ∈ slots, s.address.isSome = decide (flag ≠ .only)
  reached : ℕ
  reached_le : reached ≤ slots.length
deriving Repr, DecidableEq

/-- The number of bytes of a slot. -/
def Stamps.width (t : Stamps) : ℕ := if t.flag = .only then 4 else 8

inductive IpOption
  | nop
  | source (strict : Bool) (route : Route)
  | record (route : Route)
  | stamps (times : Stamps)
deriving Repr, DecidableEq

/-- The type, the length and the pointer of an option, and its data. -/
def IpOption.bytes : IpOption → List UInt8
  | .nop => [byteOf ipoptNop]
  | .source strict r =>
      byteOf (if strict then ipoptSsrr else ipoptLsrr) :: byteOf (3 + 4 * r.slots.length) ::
        byteOf (4 + 4 * r.reached) :: quadBytes r.slots
  | .record r =>
      byteOf ipoptRr :: byteOf (3 + 4 * r.slots.length) :: byteOf (4 + 4 * r.reached) ::
        quadBytes r.slots
  | .stamps t =>
      byteOf ipoptTs :: byteOf (4 + t.width * t.slots.length) :: byteOf (5 + t.width * t.reached) ::
        byteOf (16 * t.overflow + t.flag.code) :: (t.slots.map Slot.bytes).flatten

/-- A well-formed option area. -/
structure Area where
  options : List IpOption
  padding : List UInt8
  padded : padding = [] ∨ padding.head? = some 0
  short : ((options.map IpOption.bytes).flatten ++ padding).length ≤ 40

def Area.bytes (a : Area) : List UInt8 := (a.options.map IpOption.bytes).flatten ++ a.padding

/-! ## What should be printed -/

/-- A slot as it is read: the address, and the time with the bit for a non-standard one. -/
def Slot.reading (s : Slot) : Option Address × Option (Bool × ℤ) :=
  let l := be32At s.time.val 0
  (s.address.map Subtype.val,
    some (if l ≥ 2147483648 then (true, l - 2147483648) else (false, l)))

/-- Printed entries read back: a time that is not absolute is added to the last one of its
kind. -/
def readBack : List Entry → ℤ → ℤ → List (Option Address × Option (Bool × ℤ))
  | [], _, _ => []
  | e :: es, stdtime, nonstdtime =>
      match e.stamp with
      | none => (e.address, none) :: readBack es stdtime nonstdtime
      | some s =>
          if s.nonstandard then
            let t := if s.absolute then s.value else nonstdtime + s.value
            (e.address, some (true, t)) :: readBack es stdtime t
          else
            let t := if s.absolute then s.value else stdtime + s.value
            (e.address, some (false, t)) :: readBack es t nonstdtime

/-- The number of filled bytes as the code computes it from length and pointer. -/
def Route.count (r : Route) : ℕ := min (3 + 4 * r.slots.length) (4 + 4 * r.reached) - 4

/-- What the comparison with `old_rr` looks at. -/
def Route.window (r : Route) : List UInt8 :=
  (byteOf (4 + 4 * r.reached) :: quadBytes r.slots).take r.count

/-- The item is the decoding of the option. A recorded route is listed unless its window
is the remembered one. -/
def Shown (oldRr : List UInt8) : IpOption → Option Item → Prop
  | .nop, item => item = some .nop
  | .source strict r, item => item = some (.route strict (r.slots.map Subtype.val))
  | .record r, item =>
      if r.reached = 0 then item = none
      else item = some (.record ((r.slots.take r.reached).map Subtype.val)) ∨
        item = some .same ∧ r.window = oldRr
  | .stamps t, item =>
      if t.reached = 0 then item = none
      else ∃ entries, item = some (.times entries t.overflow) ∧
        readBack entries 0 0 = (t.slots.take t.reached).map Slot.reading

/-- The content of `old_rr` behind an option. -/
def IpOption.remembered (oldRr : List UInt8) : IpOption → List UInt8
  | .record r => if r.reached = 0 then oldRr else r.window
  | _ => oldRr

/-- There is one item for each option, and it is the decoding of it. -/
def AllShown : List UInt8 → List IpOption → List (Option Item) → Prop
  | _, [], [] => True
  | oldRr, o :: os, item :: items => Shown oldRr o item ∧ AllShown (o.remembered oldRr) os items
  | _, _, _ => False

/-- The bytes of a source route all equal its pointer. -/
def IpOption.Uniform : IpOption → Prop
  | .source _ r => ∀ b ∈ quadBytes r.slots, b = byteOf (4 + 4 * r.reached)
  | _ => True

section Shift
variable (opts : List UInt8) (m : ℕ)

theorem hopsAt_drop (n off : ℕ) : hopsAt (opts.drop m) n off = hopsAt opts n (m + off) := by
  induction n generalizing off with
  | zero => rfl
  | succ n ih => rw [hopsAt, hopsAt, bytesAt_drop, ih, Nat.add_assoc]

theorem hopsAt_append (pre : List UInt8) (n : ℕ) :
    hopsAt (pre ++ opts) n pre.length = hopsAt opts n 0 := by
  have h := hopsAt_drop (pre ++ opts) pre.length n 0
  rw [List.drop_left] at h
  exact h.symm

theorem filled_drop (off : ℕ) (minoff : ℤ) :
    filled (opts.drop m) off minoff = filled opts (m + off) minoff := by
  rw [filled, filled, byteAt_drop, byteAt_drop, Nat.add_assoc, Nat.add_assoc]

theorem entriesAt_drop (withAddress : Bool) (fuel off : ℕ) (i stdtime nonstdtime : ℤ) :
    entriesAt (opts.drop m) withAddress fuel off i stdtime nonstdtime =
      entriesAt opts withAddress fuel (m + off) i stdtime nonstdtime := by
  induction fuel generalizing off i stdtime nonstdtime with
  | zero => rfl
  | succ fuel ih =>
      unfold entriesAt
      cases withAddress <;> simp [bytesAt_drop, be32At_drop, ih, Nat.add_assoc]

variable {m} in
theorem entriesAt_append {pre : List UInt8} (hm : pre.length = m) (withAddress : Bool) (fuel : ℕ)
    (i stdtime nonstdtime : ℤ) :
    entriesAt (pre ++ opts) withAddress fuel m i stdtime nonstdtime =
      entriesAt opts withAddress fuel 0 i stdtime nonstdtime := by
  have h := entriesAt_drop (pre ++ opts) m withAddress fuel 0 i stdtime nonstdtime
  rw [← hm, List.drop_left, hm] at h
  exact h.symm

theorem optionItem_drop (flood : Bool) (off : ℕ) (oldRr : List UInt8) :
    optionItem flood (opts.drop m) off oldRr = optionItem flood opts (m + off) oldRr := by
  simp only [optionItem, routeItem, recordItem, timesItem, byteAt_drop, bytesAt_drop, filled_drop,
    hopsAt_drop, entriesAt_drop, Nat.add_assoc]

/-- The walk looks only at what lies behind its position. -/
theorem walkItems_drop (flood : Bool) (fuel off totlen : ℕ) (oldRr : List UInt8) :
    walkItems flood (opts.drop m) fuel off totlen oldRr =
      walkItems flood opts fuel (m + off) totlen oldRr := by
  induction fuel generalizing off totlen oldRr with
  | zero => rfl
  | succ fuel ih =>
      simp only [walkItems, byteAt_drop, optionItem_drop, ih, Nat.add_assoc]

end Shift

section Bytes

theorem length_quadBytes (qs : List Quad) : (quadBytes qs).length = 4 * qs.length := by
  induction qs with
  | nil => rfl
  | cons q qs ih =>
      have hq := q.property
      simp only [quadBytes, List.map_cons, List.flatten_cons, List.length_append,
        List.length_cons] at ih ⊢
      omega

theorem quadBytes_append (qs qs' : List Quad) :
    quadBytes (qs ++ qs') = quadBytes qs ++ quadBytes qs' := by
  simp [quadBytes]

/-- Addresses are read off as the slots have them if and only if their bytes are there. -/
theorem hopsAt_eq_iff (qs : List Quad) {opts : List UInt8} (h : 4 * qs.length ≤ opts.length) :
    hopsAt opts qs.length 0 = qs.map Subtype.val ↔ opts.take (4 * qs.length) = quadBytes qs := by
  induction qs generalizing opts with
  | nil => simp [hopsAt, quadBytes]
  | cons q qs ih =>
      have hq := q.property
      rw [List.length_cons] at h ⊢
      obtain ⟨four, more, rfl, hfour⟩ := exists_append_of_le (show 4 ≤ opts.length by omega)
      have hfirst : bytesAt (four ++ more) 0 4 = four := bytesAt_append [] four more rfl rfl hfour
      have hrest : hopsAt (four ++ more) qs.length (0 + 4) = hopsAt more qs.length 0 := by
        rw [Nat.zero_add, ← hfour, hopsAt_append]
      have htake : (four ++ more).take (4 * (qs.length + 1)) =
          four ++ more.take (4 * qs.length) := by
        rw [show 4 * (qs.length + 1) = four.length + 4 * qs.length by omega,
          List.take_length_add_append]
      rw [List.length_append] at h
      rw [hopsAt, hfirst, hrest, htake, List.map_cons, List.cons.injEq, ih (by omega)]
      constructor
      · rintro ⟨rfl, hmore⟩
        rw [hmore]
        rfl
      · intro heq
        exact List.append_inj heq (by omega)

theorem hopsAt_quads (qs : List Quad) (rest : List UInt8) :
    hopsAt (quadBytes qs ++ rest) qs.length 0 = qs.map Subtype.val := by
  have hlen := length_quadBytes qs
  rw [hopsAt_eq_iff qs (by rw [List.length_append]; omega), ← hlen, List.take_left]

/-- A list is its own shift by one element if and only if it is constant. -/
theorem take_cons_eq_iff {α : Type} (p : α) (xs rest : List α) :
    (p :: (xs ++ rest)).take xs.length = xs ↔ ∀ x ∈ xs, x = p := by
  induction xs generalizing p with
  | nil => simp
  | cons x xs ih =>
      rw [List.length_cons, List.take_succ_cons, List.cons_append, List.cons.injEq, ih,
        List.forall_mem_cons]
      constructor
      · rintro ⟨rfl, h⟩
        exact ⟨rfl, h⟩
      · rintro ⟨rfl, h⟩
        exact ⟨rfl, h⟩

end Bytes

section Items
variable (flood : Bool) (rest oldRr : List UInt8)

/-- The hops that are printed for a source route are those of its slots only if all bytes
equal the pointer, which is read as the first of them. -/
theorem optionItem_source (strict : Bool) {r : Route} (h : 3 + 4 * r.slots.length ≤ 40) :
    ∃ hops, optionItem flood ((IpOption.source strict r).bytes ++ rest) 0 oldRr =
        (some (.route strict hops), oldRr) ∧
      (hops = r.slots.map Subtype.val ↔ (IpOption.source strict r).Uniform) := by
  have hlen := length_quadBytes r.slots
  set pointer := byteOf (4 + 4 * r.reached) with hpointer
  set opts := (IpOption.source strict r).bytes ++ rest with hopts
  have h₀ : byteAt opts 0 = if strict then ipoptSsrr else ipoptLsrr := by
    cases strict <;> rfl
  have h₁ : byteAt opts (0 + 1) = 3 + 4 * r.slots.length :=
    (byteVal_byteOf _).trans (by omega)
  have hkind : byteAt opts 0 = ipoptSsrr ∨ byteAt opts 0 = ipoptLsrr := by
    rw [h₀]
    cases strict <;> decide
  have hstrict : decide (byteAt opts 0 = ipoptSsrr) = strict := by
    rw [h₀]
    cases strict <;> rfl
  rw [optionItem, if_pos hkind, routeItem, hstrict, h₁]
  refine ⟨_, rfl, ?_⟩
  rcases Nat.eq_zero_or_pos r.slots.length with hn | hn
  · have hnil := List.eq_nil_of_length_eq_zero hn
    simp [hnil, ipoptMinoff, IpOption.Uniform, quadBytes]
  · have hrounds : rounds (3 + 4 * r.slots.length - ipoptMinoff) = r.slots.length := by
      unfold rounds ipoptMinoff
      omega
    have hshift : hopsAt opts r.slots.length (0 + 2) =
        hopsAt (pointer :: (quadBytes r.slots ++ rest)) r.slots.length 0 :=
      hopsAt_append (pointer :: (quadBytes r.slots ++ rest))
        [byteOf (if strict then ipoptSsrr else ipoptLsrr), byteOf (3 + 4 * r.slots.length)] _
    rw [if_pos (by unfold ipoptMinoff; omega), hrounds, hshift,
      hopsAt_eq_iff r.slots (by simp only [List.length_cons, List.length_append]; omega), ← hlen,
      take_cons_eq_iff]
    rfl

theorem Route.rounds_count {r : Route} : rounds r.count = r.reached := by
  have hle := r.reached_le
  unfold Route.count rounds
  omega

theorem filled_bytes (kind : UInt8) {len pointer : ℤ} (tail : List UInt8) (minoff : ℤ)
    (hl : 0 ≤ len ∧ len < 256) (hp : 0 ≤ pointer ∧ pointer < 256) :
    filled (kind :: byteOf len :: byteOf pointer :: tail) 0 minoff = min len pointer - minoff := by
  have h₁ : byteAt (kind :: byteOf len :: byteOf pointer :: tail) (0 + 1) = len :=
    (byteVal_byteOf _).trans (by omega)
  have h₂ : byteAt (kind :: byteOf len :: byteOf pointer :: tail) (0 + 2) = pointer :=
    (byteVal_byteOf _).trans (by omega)
  rw [filled, h₁, h₂]

section Record
variable {r : Route} (h : 3 + 4 * r.slots.length ≤ 40)
include h

theorem optionItem_record :
    optionItem flood ((IpOption.record r).bytes ++ rest) 0 oldRr =
      if r.reached = 0 then (none, oldRr)
      else if r.window = oldRr ∧ flood = false then (some .same, oldRr)
      else (some (.record ((r.slots.take r.reached).map Subtype.val)), r.window) := by
  have hle := r.reached_le
  have hlen := length_quadBytes r.slots
  have hfilled : filled ((IpOption.record r).bytes ++ rest) 0 ipoptMinoff =
      min (3 + 4 * (r.slots.length : ℤ)) (4 + 4 * r.reached) - 4 :=
    filled_bytes _ _ _ (by omega) (by omega)
  have hkind : byteAt ((IpOption.record r).bytes ++ rest) 0 = ipoptRr := rfl
  have hitem : optionItem flood ((IpOption.record r).bytes ++ rest) 0 oldRr =
      recordItem flood ((IpOption.record r).bytes ++ rest) 0 oldRr := by
    rw [optionItem, if_neg (by rw [hkind]; decide), if_pos hkind]
  rw [hitem, recordItem, hfilled]
  by_cases hr : r.reached = 0
  · rw [if_pos hr, if_pos (by omega)]
  have hcount : min (3 + 4 * (r.slots.length : ℤ)) (4 + 4 * r.reached) - 4 = r.count := by
    unfold Route.count
    omega
  have hwindow : bytesAt ((IpOption.record r).bytes ++ rest) (0 + 2) r.count = r.window := by
    refine bytesAt_append [byteOf ipoptRr, byteOf (3 + 4 * r.slots.length)] r.window
      ((byteOf (4 + 4 * r.reached) :: quadBytes r.slots).drop r.count ++ rest) ?_ rfl ?_
    · rw [← List.append_assoc r.window, Route.window, List.take_append_drop]
      rfl
    · rw [Route.window, List.length_take, List.length_cons, hlen]
      unfold Route.count
      omega
  have hhops : hopsAt ((IpOption.record r).bytes ++ rest) r.reached (0 + 3) =
      (r.slots.take r.reached).map Subtype.val := by
    have hsplit : (IpOption.record r).bytes ++ rest =
        [byteOf ipoptRr, byteOf (3 + 4 * r.slots.length), byteOf (4 + 4 * r.reached)] ++
          (quadBytes (r.slots.take r.reached) ++ (quadBytes (r.slots.drop r.reached) ++ rest)) := by
      rw [← List.append_assoc (quadBytes _), ← quadBytes_append, List.take_append_drop]
      rfl
    have hquads := hopsAt_quads (r.slots.take r.reached)
      (quadBytes (r.slots.drop r.reached) ++ rest)
    rw [List.length_take, Nat.min_eq_left hle] at hquads
    rw [hsplit, ← hquads]
    exact hopsAt_append _ _ _
  rw [if_neg hr, if_neg (by omega), hcount, Int.toNat_natCast, hwindow, Route.rounds_count, hhops]

end Record

/-- A printed time is read back as the time that was recorded. -/
theorem readBack_stampOf (address : Option Address) (l stdtime nonstdtime : ℤ)
    (es : List Entry) :
    readBack (⟨address, some (stampOf l stdtime nonstdtime)⟩ :: es) stdtime nonstdtime =
      (address, some (if l ≥ 2147483648 then (true, l - 2147483648) else (false, l))) ::
        if l ≥ 2147483648 then readBack es stdtime (l - 2147483648)
        else readBack es l nonstdtime := by
  unfold stampOf
  split_ifs <;> simp [readBack]

theorem be32At_quad (q : Quad) (more : List UInt8) : be32At (q.val ++ more) 0 = be32At q.val 0 := by
  have hagree : Agree 4 (q.val ++ more) q.val := by
    rw [Agree, List.take_append_of_le_length (by rw [q.property])]
  exact hagree.be32At (by decide)

/-- One round of the loop over the slots, with `j` bytes left behind the time. -/
theorem readBack_round (slot : Slot) (slots : List Slot) (j : ℤ) (more : ℤ → ℤ → List Entry)
    (stdtime nonstdtime : ℤ) (hlast : slots = [] → j ≤ 0)
    (hmore : slots ≠ [] → ¬ j ≤ 0 ∧ ∀ s t, readBack (more s t) s t = slots.map Slot.reading) :
    readBack (⟨slot.address.map Subtype.val,
          some (stampOf (be32At slot.time.val 0) stdtime nonstdtime)⟩ ::
        if j ≤ 0 then []
        else if be32At slot.time.val 0 ≥ 2147483648 then
          more stdtime (be32At slot.time.val 0 - 2147483648)
        else more (be32At slot.time.val 0) nonstdtime) stdtime nonstdtime =
      (slot :: slots).map Slot.reading := by
  rw [readBack_stampOf, List.map_cons, Slot.reading]
  congr 1
  by_cases hnil : slots = []
  · rw [if_pos (hlast hnil), hnil]
    split_ifs <;> rfl
  · obtain ⟨hj, hback⟩ := hmore hnil
    rw [if_neg hj]
    split_ifs <;> exact hback _ _

/-- The bytes of a slot, by whether it has an address. -/
def slotWidth (withAddress : Bool) : ℤ := if withAddress then 8 else 4

/-- The loop reads one slot off and goes on behind it. -/
theorem entriesAt_slot {withAddress : Bool} {slot : Slot}
    (hslot : slot.address.isSome = withAddress) (more : List UInt8) (fuel : ℕ) {i : ℤ}
    (hi : slotWidth withAddress - 4 < i) (stdtime nonstdtime : ℤ) :
    entriesAt (slot.bytes ++ more) withAddress (fuel + 1) 0 i stdtime nonstdtime =
      ⟨slot.address.map Subtype.val,
        some (stampOf (be32At slot.time.val 0) stdtime nonstdtime)⟩ ::
      if i - slotWidth withAddress ≤ 0 then []
      else if be32At slot.time.val 0 ≥ 2147483648 then
        entriesAt more withAddress fuel 0 (i - slotWidth withAddress) stdtime
          (be32At slot.time.val 0 - 2147483648)
      else
        entriesAt more withAddress fuel 0 (i - slotWidth withAddress) (be32At slot.time.val 0)
          nonstdtime := by
  rw [entriesAt]
  cases haddress : slot.address with
  | none =>
      obtain rfl : withAddress = false := by rw [← hslot, haddress]; rfl
      have hbytes : slot.bytes = slot.time.val := by rw [Slot.bytes, haddress]
      simp only [Bool.false_eq_true, if_false, false_and, hbytes, be32At_quad, Nat.zero_add,
        entriesAt_append _ slot.time.property, slotWidth]
      rfl
  | some address =>
      obtain rfl : withAddress = true := by rw [← hslot, haddress]; rfl
      have hbytes : slot.bytes ++ more = address.val ++ (slot.time.val ++ more) := by
        rw [Slot.bytes, haddress, List.append_assoc]
      have hfirst : bytesAt (slot.bytes ++ more) 0 4 = address.val :=
        bytesAt_append [] address.val _ hbytes rfl address.property
      have htime : be32At (slot.bytes ++ more) (0 + 4) = be32At slot.time.val 0 := by
        have h := be32At_drop (slot.bytes ++ more) 4 0
        rw [hbytes, List.drop_left' address.property, be32At_quad] at h
        rw [hbytes]
        exact h.symm
      have hlen : slot.bytes.length = 0 + 4 + 4 := by
        rw [Slot.bytes, haddress, List.length_append, address.property, slot.time.property]
      have hsub : i - 4 - 4 = i - slotWidth true := Int.sub_sub i 4 4
      have hgo : ¬ (True ∧ i - 4 ≤ 0) := by
        have h8 : slotWidth true = 8 := rfl
        omega
      simp only [if_true]
      rw [if_neg hgo, hfirst, htime]
      simp only [hsub, entriesAt_append _ hlen]
      rfl

/-- The loop over the slots of a timestamp option. In the last round there may be one byte
less to go, since the pointer of a full option is cut to the length. -/
theorem readBack_entriesAt (withAddress : Bool) {slots : List Slot} (hne : slots ≠ [])
    (haddr : ∀ s ∈ slots, s.address.isSome = withAddress) {fuel : ℕ} (hf : slots.length ≤ fuel)
    {i : ℤ} (hi : i = slotWidth withAddress * slots.length ∨
      i = slotWidth withAddress * slots.length - 1) (stdtime nonstdtime : ℤ) :
    readBack (entriesAt ((slots.map Slot.bytes).flatten ++ rest) withAddress fuel 0 i stdtime
        nonstdtime) stdtime nonstdtime = slots.map Slot.reading := by
  have hwidth : slotWidth withAddress = 4 ∨ slotWidth withAddress = 8 := by
    cases withAddress <;> decide
  induction slots generalizing fuel i stdtime nonstdtime with
  | nil => exact absurd rfl hne
  | cons slot slots ih =>
      obtain ⟨k, rfl⟩ : ∃ k, fuel = k + 1 := ⟨fuel - 1, by simp at hf; omega⟩
      have hslots : ∀ s ∈ slots, s.address.isSome = withAddress :=
        fun s hs => haddr s (List.mem_cons_of_mem _ hs)
      rw [List.length_cons] at hf hi
      have hstart : slotWidth withAddress - 4 < i := by
        rcases hwidth with hw | hw <;> rw [hw] at hi ⊢ <;> omega
      rw [List.map_cons, List.flatten_cons, List.append_assoc,
        entriesAt_slot (haddr slot List.mem_cons_self) _ k hstart]
      refine readBack_round slot slots _ _ stdtime nonstdtime (fun h => ?_) fun h => ⟨?_, ?_⟩
      · have hlen : slots.length = 0 := by rw [h]; rfl
        rcases hwidth with hw | hw <;> rw [hw] at hi ⊢ <;> omega
      · have hlen := List.length_pos_iff.mpr h
        rcases hwidth with hw | hw <;> rw [hw] at hi ⊢ <;> omega
      · refine ih h hslots (by omega) ?_
        rcases hwidth with hw | hw <;> rw [hw] at hi ⊢ <;> omega

section Times
variable {t : Stamps}

theorem flag_code (t : Stamps) :
    decide ((16 * (t.overflow : ℤ) + t.flag.code) % 16 ≠ ipoptTsTsonly) =
      decide (t.flag ≠ .only) := by
  have hmod : (16 * (t.overflow : ℤ) + t.flag.code) % 16 = t.flag.code % 16 := by omega
  rw [hmod]
  cases t.flag <;> rfl

theorem Stamps.width_eq (t : Stamps) : (t.width : ℤ) = slotWidth (decide (t.flag ≠ .only)) := by
  unfold Stamps.width
  cases t.flag <;> rfl

/-- The number of filled bytes as the code computes it, if there are any. -/
theorem Stamps.count_eq (hr : t.reached ≠ 0) :
    let i := min (4 + (t.width : ℤ) * t.slots.length) (5 + t.width * t.reached) - 5
    (i = t.width * t.reached ∨ i = t.width * t.reached - 1) ∧ 0 < i ∧ t.reached ≤ i.toNat := by
  have hwidth : 4 ≤ t.width := by
    unfold Stamps.width
    split_ifs <;> omega
  have hfour : 4 * t.reached ≤ t.width * t.reached := Nat.mul_le_mul_right _ hwidth
  rcases Nat.lt_or_eq_of_le t.reached_le with hlt | heq
  · have hmore : t.width * t.reached + t.width ≤ t.width * t.slots.length :=
      Nat.mul_le_mul_left t.width hlt
    dsimp only
    omega
  · rw [← heq]
    dsimp only
    omega

variable (h : 4 + t.width * t.slots.length ≤ 40)
include h

/-- What is printed for a timestamp option, read back, are the slots in front of the
pointer. -/
theorem shown_stamps : Shown oldRr (.stamps t)
    (timesItem ((IpOption.stamps t).bytes ++ rest) 0) := by
  have hle := t.reached_le
  have hover := t.overflow_lt
  have hcode : 0 ≤ t.flag.code ∧ t.flag.code ≤ 3 := by
    cases t.flag <;> decide
  have hmul : t.width * t.reached ≤ t.width * t.slots.length := Nat.mul_le_mul_left _ hle
  have hfilled : filled ((IpOption.stamps t).bytes ++ rest) 0 5 =
      min (4 + (t.width : ℤ) * t.slots.length) (5 + t.width * t.reached) - 5 :=
    filled_bytes _ _ _ (by omega) (by omega)
  have hflags : byteAt ((IpOption.stamps t).bytes ++ rest) (0 + 3) =
      16 * t.overflow + t.flag.code := (byteVal_byteOf _).trans (by omega)
  have hunrecorded : (16 * (t.overflow : ℤ) + t.flag.code) / 16 = t.overflow := by omega
  rw [timesItem, hfilled, hflags, flag_code, hunrecorded, Shown]
  by_cases hr : t.reached = 0
  · rw [if_pos hr, hr, if_pos (by omega)]
  obtain ⟨hcount, hpos, hfuel⟩ := Stamps.count_eq hr
  generalize min (4 + (t.width : ℤ) * t.slots.length) (5 + t.width * t.reached) - 5 = i
    at hcount hpos hfuel ⊢
  have hlen : (t.slots.take t.reached).length = t.reached := by
    rw [List.length_take, Nat.min_eq_left hle]
  have hsplit : (IpOption.stamps t).bytes ++ rest =
      [byteOf ipoptTs, byteOf (4 + t.width * t.slots.length), byteOf (5 + t.width * t.reached),
        byteOf (16 * t.overflow + t.flag.code)] ++
      (((t.slots.take t.reached).map Slot.bytes).flatten ++
        (((t.slots.drop t.reached).map Slot.bytes).flatten ++ rest)) := by
    rw [← List.append_assoc (List.flatten _), ← List.flatten_append, ← List.map_append,
      List.take_append_drop]
    rfl
  have hhead : [byteOf ipoptTs, byteOf (4 + t.width * t.slots.length),
      byteOf (5 + t.width * t.reached), byteOf (16 * t.overflow + t.flag.code)].length =
        0 + 4 := rfl
  rw [if_neg hr, if_neg (by omega), hsplit, entriesAt_append _ hhead]
  refine ⟨_, rfl, readBack_entriesAt _ _ ?_ ?_ ?_ ?_ 0 0⟩
  · intro hnil
    rw [hnil] at hlen
    exact hr hlen.symm
  · exact fun s hs => t.addressed s (List.mem_of_mem_take hs)
  · rw [hlen]
    exact hfuel
  · rw [hlen, ← Stamps.width_eq]
    exact hcount

end Times

theorem length_slotBytes (t : Stamps) :
    ((t.slots.map Slot.bytes).flatten).length = t.width * t.slots.length := by
  have hslot : ∀ s ∈ t.slots, s.bytes.length = t.width := by
    intro s hs
    have haddr := t.addressed s hs
    unfold Slot.bytes Stamps.width
    cases hs' : s.address with
    | none =>
        rw [hs'] at haddr
        have honly : t.flag = .only := by simpa using haddr.symm
        simp [honly, s.time.property]
    | some address =>
        rw [hs'] at haddr
        have honly : t.flag ≠ .only := by simpa using haddr.symm
        simp [honly, s.time.property, address.property]
  have hconst : t.slots.map (List.length ∘ Slot.bytes) = t.slots.map fun _ => t.width :=
    List.map_congr_left hslot
  rw [List.length_flatten, List.map_map, hconst]
  simp [Nat.mul_comm]

theorem length_source (strict : Bool) (r : Route) :
    (IpOption.source strict r).bytes.length = 3 + 4 * r.slots.length := by
  simp only [IpOption.bytes, List.length_cons, length_quadBytes]
  omega

theorem length_record (r : Route) : (IpOption.record r).bytes.length = 3 + 4 * r.slots.length := by
  simp only [IpOption.bytes, List.length_cons, length_quadBytes]
  omega

theorem length_stamps (t : Stamps) :
    (IpOption.stamps t).bytes.length = 4 + t.width * t.slots.length := by
  simp only [IpOption.bytes, List.length_cons, length_slotBytes]
  omega

/-- How the walk recognises an option and goes on behind it. -/
theorem byteAt_option {o : IpOption} (hne : o ≠ .nop) (h : o.bytes.length ≤ 40) :
    byteAt (o.bytes ++ rest) 0 ≠ ipoptEol ∧ byteAt (o.bytes ++ rest) 0 ≠ ipoptNop ∧
      byteAt (o.bytes ++ rest) (0 + 1) = o.bytes.length ∧ 2 ≤ o.bytes.length := by
  cases o with
  | nop => exact absurd rfl hne
  | source strict r =>
      rw [length_source] at h ⊢
      have hkind : byteAt ((IpOption.source strict r).bytes ++ rest) 0 =
          if strict then ipoptSsrr else ipoptLsrr := by
        cases strict <;> rfl
      rw [hkind]
      refine ⟨by cases strict <;> decide, by cases strict <;> decide, ?_, by omega⟩
      exact (byteVal_byteOf _).trans (by omega)
  | record r =>
      rw [length_record] at h ⊢
      exact ⟨(by decide : ipoptRr ≠ ipoptEol), (by decide : ipoptRr ≠ ipoptNop),
        (byteVal_byteOf _).trans (by omega), by omega⟩
  | stamps t =>
      rw [length_stamps] at h ⊢
      exact ⟨(by decide : ipoptTs ≠ ipoptEol), (by decide : ipoptTs ≠ ipoptNop),
        (byteVal_byteOf _).trans (by omega), by omega⟩

/-- What is printed for an option is its decoding if and only if it is no source route or
one whose bytes all equal the pointer. -/
theorem shown_iff {o : IpOption} (hne : o ≠ .nop) (h : o.bytes.length ≤ 40) :
    (Shown oldRr o (optionItem flood (o.bytes ++ rest) 0 oldRr).1 ↔ o.Uniform) ∧
      (optionItem flood (o.bytes ++ rest) 0 oldRr).2 = o.remembered oldRr := by
  cases o with
  | nop => exact absurd rfl hne
  | source strict r =>
      rw [length_source] at h
      obtain ⟨hops, hitem, huniform⟩ := optionItem_source flood rest oldRr strict h
      rw [hitem, ← huniform]
      simp [Shown, IpOption.remembered]
  | record r =>
      rw [length_record] at h
      rw [optionItem_record flood rest oldRr h, Shown, IpOption.remembered]
      refine ⟨iff_of_true ?_ trivial, ?_⟩
      · split_ifs with hr hsame
        · rfl
        · exact Or.inr ⟨rfl, hsame.1⟩
        · exact Or.inl rfl
      · split_ifs with hr hsame
        · rfl
        · exact hsame.1.symm
        · rfl
  | stamps t =>
      rw [length_stamps] at h
      have hitem : optionItem flood ((IpOption.stamps t).bytes ++ rest) 0 oldRr =
          (timesItem ((IpOption.stamps t).bytes ++ rest) 0, oldRr) := rfl
      rw [hitem]
      exact ⟨iff_of_true (shown_stamps rest oldRr h) trivial, rfl⟩

theorem walkItems_append (pre : List UInt8) (fuel totlen : ℕ) :
    walkItems flood (pre ++ rest) fuel pre.length totlen oldRr =
      walkItems flood rest fuel 0 totlen oldRr := by
  have h := walkItems_drop (pre ++ rest) pre.length flood fuel 0 totlen oldRr
  rw [List.drop_left] at h
  exact h.symm

/-- The walk prints one item for an option at its start and goes on behind the option. -/
theorem walkItems_bytes (o : IpOption) (h : o.bytes.length ≤ 40) (fuel : ℕ) :
    ∃ item, (walkItems flood (o.bytes ++ rest) (fuel + 1) 0 (o.bytes.length + rest.length)
        oldRr).1 = item :: (walkItems flood rest fuel 0 rest.length (o.remembered oldRr)).1 ∧
      (Shown oldRr o item ↔ o.Uniform) := by
  by_cases hnop : o = .nop
  · subst hnop
    have hlen : (IpOption.bytes .nop).length = 1 := rfl
    have hend : ¬ ((IpOption.bytes .nop).length + rest.length = 0 ∨
        byteAt (IpOption.bytes .nop ++ rest) 0 = ipoptEol) := by
      rintro (h0 | heol)
      · omega
      · exact absurd heol (by decide : ¬ ipoptNop = ipoptEol)
    have hrest : walkItems flood (IpOption.bytes .nop ++ rest) fuel (0 + 1)
        ((IpOption.bytes .nop).length + rest.length - 1) oldRr =
          walkItems flood rest fuel 0 rest.length oldRr := by
      rw [hlen, Nat.add_sub_cancel_left]
      exact walkItems_append flood rest oldRr (IpOption.bytes .nop) fuel rest.length
    rw [walkItems_nop hend rfl, hrest]
    exact ⟨some .nop, rfl, iff_of_true rfl trivial⟩
  · obtain ⟨heol, hno, holen, htwo⟩ := byteAt_option rest hnop h
    obtain ⟨hshown, hremembered⟩ := shown_iff flood rest oldRr hnop h
    have hend : ¬ (o.bytes.length + rest.length = 0 ∨ byteAt (o.bytes ++ rest) 0 = ipoptEol) := by
      rintro (h0 | h0)
      · omega
      · exact heol h0
    have hrest : walkItems flood (o.bytes ++ rest) fuel
        (0 + (byteAt (o.bytes ++ rest) (0 + 1)).toNat)
        (o.bytes.length + rest.length - (byteAt (o.bytes ++ rest) (0 + 1)).toNat)
        (o.remembered oldRr) = walkItems flood rest fuel 0 rest.length (o.remembered oldRr) := by
      rw [holen, Int.toNat_natCast, Nat.zero_add, Nat.add_sub_cancel_left, walkItems_append]
    rw [walkItems_option hend hno (by rw [holen]; omega), hremembered, hrest]
    exact ⟨_, rfl, hshown⟩

theorem bytes_ne_nil (o : IpOption) : o.bytes ≠ [] := by
  cases o <;> simp [IpOption.bytes]

/-- The walk over the options of an area. -/
theorem allShown_walkItems {padding : List UInt8} (hpad : padding = [] ∨ padding.head? = some 0)
    (os : List IpOption) (hshort : ((os.map IpOption.bytes).flatten ++ padding).length ≤ 40)
    {fuel : ℕ} (hf : ((os.map IpOption.bytes).flatten ++ padding).length ≤ fuel) :
    AllShown oldRr os (walkItems flood ((os.map IpOption.bytes).flatten ++ padding) fuel 0
        ((os.map IpOption.bytes).flatten ++ padding).length oldRr).1 ↔ ∀ o ∈ os, o.Uniform := by
  induction os generalizing fuel oldRr with
  | nil =>
      have hstop : padding.length = 0 ∨ byteAt padding 0 = ipoptEol := by
        rcases hpad with rfl | hhead
        · exact Or.inl rfl
        · obtain ⟨tail, rfl⟩ := List.head?_eq_some_iff.mp hhead
          exact Or.inr rfl
      rw [List.map_nil, List.flatten_nil, List.nil_append, walkItems_stop hstop]
      simp [AllShown]
  | cons o os ih =>
      rw [List.map_cons, List.flatten_cons, List.append_assoc, List.length_append] at hshort hf ⊢
      have hpos := List.length_pos_iff.mpr (bytes_ne_nil o)
      obtain ⟨k, rfl⟩ : ∃ k, fuel = k + 1 := ⟨fuel - 1, by omega⟩
      obtain ⟨item, hitems, hshown⟩ := walkItems_bytes flood
        ((os.map IpOption.bytes).flatten ++ padding) oldRr o (by omega) k
      rw [hitems, AllShown, hshown, List.forall_mem_cons]
      exact and_congr_right fun _ => ih (o.remembered oldRr) (by omega) (by omega)

end Items

/-- What `pr_options` prints for a well-formed area is the decoding of its options if and
only if the bytes of every source route in it equal the pointer. -/
theorem decoded_iff (a : Area) (flood : Bool) (oldRr : List UInt8) :
    AllShown oldRr a.options (prItems flood a.bytes a.bytes.length oldRr).1 ↔
      ∀ o ∈ a.options, o.Uniform :=
  allShown_walkItems flood oldRr a.padded a.options a.short (Nat.le_refl _)

/-- An area with one loose source route over 10.0.0.1. -/
def sourceArea : Area where
  options := [.nop, .source false ⟨[⟨[10, 0, 0, 1], rfl⟩], 0, Nat.zero_le _⟩]
  padding := []
  padded := Or.inl rfl
  short := by decide

/-- The address 10.0.0.1 is printed as 4.10.0.0. -/
theorem source_route_shifted : (prItems false sourceArea.bytes sourceArea.bytes.length []).1 =
      [some .nop, some (.route false [[4, 10, 0, 0]])] ∧
    ¬ AllShown [] sourceArea.options
      (prItems false sourceArea.bytes sourceArea.bytes.length []).1 := by
  have hitems : (prItems false sourceArea.bytes sourceArea.bytes.length []).1 =
      [some .nop, some (.route false [[4, 10, 0, 0]])] := by decide
  refine ⟨hitems, ?_⟩
  rw [hitems]
  rintro ⟨-, hroute, -⟩
  have hhops := (Item.route.inj (Option.some.inj hroute)).2
  exact absurd hhops (by decide)

end Iputils.OptionDecoding
