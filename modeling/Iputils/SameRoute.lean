import Iputils.OptionItems

/-!
# The remark "(same route)"

`pr_options` remembers the route that it printed last and replaces an equal one by
"(same route)". What it compares is a window of bytes that begins at the pointer, one byte
before the first address, and so ends before the last byte of the last address, or one
byte earlier still if the option is full. The main result says for which sequences of
replies the remark is right all along.
-/
set_option autoImplicit false

namespace Iputils.SameRoute
open ByteBuffer PrOptions OptionItems

/-- A record-route option in which something is recorded: its pointer, the number of
filled bytes as the code computes it, and the addresses in it. -/
structure Recorded where
  pointer : UInt8
  count : ℕ
  hops : List Address
  hops_length : ∀ h ∈ hops, h.length = 4
  count_range : 0 < count ∧ count ≤ 4 * hops.length
deriving Repr, DecidableEq

/-- The bytes that are compared and remembered. -/
def Recorded.window (r : Recorded) : List UInt8 := r.pointer :: r.hops.flatten.take (r.count - 1)

/-- The address bytes that are not compared. -/
def Recorded.tail (r : Recorded) : List UInt8 := r.hops.flatten.drop (r.count - 1)

theorem length_of_mem_hopsAt {opts : List UInt8} {n off : ℕ} :
    ∀ h ∈ hopsAt opts n off, h.length = 4 := by
  induction n generalizing off with
  | zero => simp [hopsAt]
  | succ n ih =>
      intro h hh
      rcases List.mem_cons.mp hh with rfl | hh
      · simp [bytesAt]
      · exact ih h hh

theorem length_hopsAt (opts : List UInt8) (n off : ℕ) : (hopsAt opts n off).length = n := by
  induction n generalizing off with
  | zero => rfl
  | succ n ih => rw [hopsAt, List.length_cons, ih]

def recordAt (opts : List UInt8) (off : ℕ) (h : 0 < filled opts off ipoptMinoff) : Recorded where
  pointer := opts.getD (off + 2) 0
  count := (filled opts off ipoptMinoff).toNat
  hops := hopsAt opts (rounds (filled opts off ipoptMinoff)) (off + 3)
  hops_length := length_of_mem_hopsAt
  count_range := by
    rw [length_hopsAt]
    unfold rounds
    omega

/-- The record-route options that the walk meets. -/
def recordsFrom (opts : List UInt8) : ℕ → ℕ → ℕ → List Recorded
  | 0, _, _ => []
  | fuel + 1, off, totlen =>
      let olen := (byteAt opts (off + 1)).toNat
      if totlen = 0 ∨ byteAt opts off = ipoptEol then []
      else if byteAt opts off = ipoptNop then recordsFrom opts fuel (off + 1) (totlen - 1)
      else if olen < 2 ∨ olen > totlen then []
      else
        let rest := recordsFrom opts fuel (off + olen) (totlen - olen)
        if h : byteAt opts off = ipoptRr ∧ 0 < filled opts off ipoptMinoff then
          recordAt opts off h.2 :: rest
        else rest

/-- What one reply passes to `pr_options`: the option area and its length. -/
structure Reply where
  opts : List UInt8
  totlen : ℕ
deriving Repr, DecidableEq

def Reply.records (p : Reply) : List Recorded := recordsFrom p.opts p.totlen 0 p.totlen

/-- What is printed for a sequence of replies without flood mode. -/
def prRun : List UInt8 → List Reply → List (Option Item)
  | _, [] => []
  | oldRr, p :: ps =>
      let (items, oldRr) := prItems false p.opts p.totlen oldRr
      items ++ prRun oldRr ps

/-- Of these, the lists of recorded routes and the remarks that replace them. -/
def routeItems (items : List (Option Item)) : List Item :=
  items.filterMap fun item =>
    match item with
    | some .same => some .same
    | some (.record hops) => some (.record hops)
    | _ => none

/-- What should be printed for a sequence of routes: the remark stands for the list that
was printed last. -/
def expected : Option (List Address) → List Recorded → List Item
  | _, [] => []
  | last, r :: rs =>
      if last = some r.hops then .same :: expected last rs
      else .record r.hops :: expected (some r.hops) rs

/-- The comparison tells the routes apart: if the windows agree, so do the bytes behind
them, and equal routes are stored with the same pointer and size. -/
def Told (l r : Recorded) : Prop :=
  (r.window = l.window → r.tail = l.tail) ∧
    (r.hops = l.hops → r.pointer = l.pointer ∧ r.count = l.count)

/-- The comparison tells each route of a sequence from the one that was printed last. -/
def Clear : Option Recorded → List Recorded → Prop
  | _, [] => True
  | none, r :: rs => Clear (some r) rs
  | some l, r :: rs => Told l r ∧ Clear (some (if r.hops = l.hops then l else r)) rs

/-- What the code makes of a sequence of routes. -/
def marks : List UInt8 → List Recorded → List Item
  | _, [] => []
  | oldRr, r :: rs =>
      if r.window = oldRr then .same :: marks oldRr rs
      else .record r.hops :: marks r.window rs

/-- The content of `old_rr` behind a sequence of routes. -/
def lastWindow (oldRr : List UInt8) (rs : List Recorded) : List UInt8 :=
  rs.foldl (fun _ r => r.window) oldRr

section Routes

theorem length_flatten_hops (r : Recorded) : r.hops.flatten.length = 4 * r.hops.length := by
  have hmap := List.map_eq_replicate_iff.mpr r.hops_length
  rw [List.length_flatten, hmap, List.sum_replicate_nat, Nat.mul_comm]

theorem length_window (r : Recorded) : r.window.length = r.count := by
  have hlen := length_flatten_hops r
  have hcount := r.count_range
  rw [Recorded.window, List.length_cons, List.length_take]
  omega

theorem hops_eq_of_flatten {r l : Recorded} (h : r.hops.flatten = l.hops.flatten) :
    r.hops = l.hops := by
  have hlen := congrArg List.length h
  rw [length_flatten_hops, length_flatten_hops] at hlen
  have hr := List.map_eq_replicate_iff.mpr r.hops_length
  have hl := List.map_eq_replicate_iff.mpr l.hops_length
  refine List.eq_iff_flatten_eq.mpr ⟨h, ?_⟩
  rw [hr, hl, Nat.eq_of_mul_eq_mul_left (by decide) hlen]

/-- Windows and the bytes behind them make up the route. -/
theorem hops_eq_of_window {r l : Recorded} (hw : r.window = l.window) (ht : r.tail = l.tail) :
    r.hops = l.hops := by
  apply hops_eq_of_flatten
  have htake := (List.cons.inj hw).2
  rw [← List.take_append_drop (r.count - 1) r.hops.flatten, htake, ← Recorded.tail, ht]
  exact List.take_append_drop _ _

/-- Along a sequence of routes the code does what it should if and only if the comparison
tells the routes apart. -/
theorem marks_eq_expected_iff (rs : List Recorded) (last : Option Recorded) :
    marks ((last.map Recorded.window).getD []) rs = expected (last.map Recorded.hops) rs ↔
      Clear last rs := by
  induction rs generalizing last with
  | nil => cases last <;> simp [marks, expected, Clear]
  | cons r rs ih =>
      cases last with
      | none =>
          rw [Option.map_none, Option.map_none, Option.getD_none, marks, expected, Clear,
            if_neg (by simp [Recorded.window]), if_neg (by simp), ← ih (some r), List.cons.injEq]
          exact and_iff_right rfl
      | some l =>
          rw [Option.map_some, Option.map_some, Option.getD_some, marks, expected, Clear]
          by_cases hh : r.hops = l.hops
          · by_cases hw : r.window = l.window
            · have hcount : r.count = l.count := by
                rw [← length_window, hw, length_window]
              have htold : Told l r := by
                refine ⟨fun _ => ?_, fun _ => ⟨(List.cons.inj hw).1, hcount⟩⟩
                rw [Recorded.tail, Recorded.tail, hh, hcount]
              rw [if_pos hw, if_pos (by rw [hh]), if_pos hh, List.cons.injEq, ← ih (some l)]
              exact and_congr (iff_of_true rfl htold) Iff.rfl
            · rw [if_neg hw, if_pos (by rw [hh])]
              refine iff_of_false (by simp) fun htold => hw ?_
              obtain ⟨hp, hc⟩ := htold.1.2 hh
              rw [Recorded.window, Recorded.window, hp, hc, hh]
          · have hlast : ¬ some l.hops = some r.hops := fun h => hh (Option.some.inj h).symm
            by_cases hw : r.window = l.window
            · rw [if_pos hw, if_neg hlast]
              exact iff_of_false (by simp) fun htold => hh (hops_eq_of_window hw (htold.1.1 hw))
            · have htold : Told l r := ⟨fun h => absurd h hw, fun h => absurd h hh⟩
              rw [if_neg hw, if_neg hlast, if_neg hh, List.cons.injEq, ← ih (some r)]
              exact and_congr (iff_of_true rfl htold) Iff.rfl

end Routes

section Walk
variable {opts : List UInt8}

theorem bytesAt_add (off m n : ℕ) :
    bytesAt opts off (m + n) = bytesAt opts off m ++ bytesAt opts (off + m) n := by
  simp [bytesAt, List.range_add, Nat.add_assoc]

theorem flatten_hopsAt (n off : ℕ) : (hopsAt opts n off).flatten = bytesAt opts off (4 * n) := by
  induction n generalizing off with
  | zero => rfl
  | succ n ih => rw [hopsAt, List.flatten_cons, ih, ← bytesAt_add, Nat.mul_succ, Nat.add_comm]

theorem window_recordAt {off : ℕ} (h : 0 < filled opts off ipoptMinoff) :
    (recordAt opts off h).window = bytesAt opts (off + 2) (filled opts off ipoptMinoff).toNat := by
  have hcount := (recordAt opts off h).count_range
  obtain ⟨k, hk⟩ : ∃ k, (filled opts off ipoptMinoff).toNat = 1 + k :=
    ⟨(filled opts off ipoptMinoff).toNat - 1, by omega⟩
  have hlen : k ≤ 4 * rounds (filled opts off ipoptMinoff) := by
    unfold rounds
    omega
  rw [Recorded.window, recordAt]
  dsimp only
  rw [flatten_hopsAt, hk, bytesAt_add, Nat.add_sub_cancel_left, take_bytesAt _ _ hlen]
  rfl

theorem optionItem_recorded {off : ℕ} (hk : byteAt opts off = ipoptRr)
    (h : 0 < filled opts off ipoptMinoff) (oldRr : List UInt8) :
    optionItem false opts off oldRr =
      (if (recordAt opts off h).window = oldRr then some .same
        else some (.record (recordAt opts off h).hops), (recordAt opts off h).window) := by
  have hroute : ¬ (byteAt opts off = ipoptSsrr ∨ byteAt opts off = ipoptLsrr) := by
    rw [hk]
    decide
  rw [optionItem, if_neg hroute, if_pos hk, recordItem, if_neg (by omega), ← window_recordAt h]
  by_cases hw : (recordAt opts off h).window = oldRr
  · rw [if_pos ⟨hw, rfl⟩, if_pos hw, hw]
  · rw [if_neg fun hs => hw hs.1, if_neg hw]
    rfl

/-- Any other option has nothing to do with recorded routes. -/
theorem optionItem_unrecorded {off : ℕ}
    (h : ¬ (byteAt opts off = ipoptRr ∧ 0 < filled opts off ipoptMinoff)) (oldRr : List UInt8) :
    routeItems [(optionItem false opts off oldRr).1] = [] ∧
      (optionItem false opts off oldRr).2 = oldRr := by
  by_cases hk : byteAt opts off = ipoptRr
  · have hitem : optionItem false opts off oldRr = (none, oldRr) := by
      simp only [optionItem, hk]
      rw [if_neg (by decide), if_pos trivial, recordItem, if_pos (by omega)]
    rw [hitem]
    exact ⟨rfl, rfl⟩
  · rw [optionItem]
    split_ifs
    · exact ⟨rfl, rfl⟩
    · unfold timesItem
      dsimp only
      split_ifs <;> exact ⟨rfl, rfl⟩
    · exact ⟨rfl, rfl⟩

theorem routeItems_cons (item : Option Item) (items : List (Option Item)) :
    routeItems (item :: items) = routeItems [item] ++ routeItems items := by
  rw [routeItems, ← List.singleton_append, List.filterMap_append]
  rfl

theorem routeItems_append (items items' : List (Option Item)) :
    routeItems (items ++ items') = routeItems items ++ routeItems items' :=
  List.filterMap_append

/-- One call of `pr_options`: the routes it meets are treated one after the other. -/
theorem walkItems_routes (fuel off totlen : ℕ) (oldRr : List UInt8) :
    routeItems (walkItems false opts fuel off totlen oldRr).1 =
        marks oldRr (recordsFrom opts fuel off totlen) ∧
      (walkItems false opts fuel off totlen oldRr).2 =
        lastWindow oldRr (recordsFrom opts fuel off totlen) := by
  induction fuel, off, totlen using walk_induction opts generalizing oldRr with
  | zero off totlen => exact ⟨rfl, rfl⟩
  | stop fuel off totlen hend =>
      rw [recordsFrom, walkItems_stop hend, if_pos hend]
      exact ⟨rfl, rfl⟩
  | nop fuel off totlen hend hnop ih =>
      rw [recordsFrom, walkItems_nop hend hnop, if_neg hend, if_pos hnop]
      exact ih oldRr
  | improper fuel off totlen hend hnop hlen =>
      rw [recordsFrom, walkItems_improper hend hnop hlen, if_neg hend, if_neg hnop, if_pos hlen]
      exact ⟨rfl, rfl⟩
  | option fuel off totlen hend hnop hlen ih =>
      rw [recordsFrom, walkItems_option hend hnop hlen, if_neg hend, if_neg hnop, if_neg hlen,
        routeItems_cons]
      by_cases h : byteAt opts off = ipoptRr ∧ 0 < filled opts off ipoptMinoff
      · rw [dif_pos h, optionItem_recorded h.1 h.2, marks]
        obtain ⟨hitems, hlast⟩ := ih (recordAt opts off h.2).window
        refine ⟨?_, hlast⟩
        rw [hitems]
        split_ifs with hw
        · rw [hw]
          rfl
        · rfl
      · obtain ⟨hitem, hold⟩ := optionItem_unrecorded h oldRr
        rw [dif_neg h, hitem, hold]
        exact ih oldRr

theorem marks_append (oldRr : List UInt8) (rs rs' : List Recorded) :
    marks oldRr (rs ++ rs') = marks oldRr rs ++ marks (lastWindow oldRr rs) rs' := by
  induction rs generalizing oldRr with
  | nil => rfl
  | cons r rs ih =>
      rw [List.cons_append, marks, marks, lastWindow, List.foldl_cons, ← lastWindow]
      split_ifs with hw
      · rw [ih, hw]
        rfl
      · rw [ih]
        rfl

/-- A sequence of replies is a sequence of routes. -/
theorem prRun_routes (ps : List Reply) (oldRr : List UInt8) :
    routeItems (prRun oldRr ps) = marks oldRr (ps.flatMap Reply.records) := by
  induction ps generalizing oldRr with
  | nil => rfl
  | cons p ps ih =>
      obtain ⟨hitems, hlast⟩ := @walkItems_routes p.opts p.totlen 0 p.totlen oldRr
      rw [prRun, routeItems_append, ih, List.flatMap_cons, marks_append, prItems, hitems, hlast]
      rfl

end Walk

/-- In a run of replies, "(same route)" is printed exactly for the routes that equal the
one printed last, if and only if the comparison tells each route from that one. -/
theorem same_route_iff (ps : List Reply) :
    routeItems (prRun [] ps) = expected none (ps.flatMap Reply.records) ↔
      Clear none (ps.flatMap Reply.records) := by
  rw [prRun_routes]
  exact marks_eq_expected_iff (ps.flatMap Reply.records) none

/-- A reply with a NOP and a record-route option of nine slots, the first of them filled. -/
def oneHop (address : Address) : Reply where
  opts := [1, 7, 39, 8] ++ address ++ List.replicate 32 0
  totlen := 40

/-- A reply with a record-route option of one slot. -/
def fullHop (address : Address) : Reply where
  opts := [1, 7, 7, 8] ++ address
  totlen := 8

/-- A route over 10.0.0.2 is called the same as one over 10.0.0.1, and the same route in
a shorter option is not recognised. -/
theorem same_route_wrong :
    routeItems (prRun [] [oneHop [10, 0, 0, 1], oneHop [10, 0, 0, 2]]) =
        [.record [[10, 0, 0, 1]], .same] ∧
      expected none ([oneHop [10, 0, 0, 1], oneHop [10, 0, 0, 2]].flatMap Reply.records) =
        [.record [[10, 0, 0, 1]], .record [[10, 0, 0, 2]]] ∧
    routeItems (prRun [] [oneHop [10, 0, 0, 1], fullHop [10, 0, 0, 1]]) =
        [.record [[10, 0, 0, 1]], .record [[10, 0, 0, 1]]] ∧
      expected none ([oneHop [10, 0, 0, 1], fullHop [10, 0, 0, 1]].flatMap Reply.records) =
        [.record [[10, 0, 0, 1]], .same] := by
  decide

end Iputils.SameRoute
