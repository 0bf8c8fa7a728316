import Mathlib.Data.List.Basic
import Mathlib.Data.List.DropRight
import Mathlib.Tactic.SplitIfs

/-!
# Scanning of text

The scanners of C programs on lists of characters: `strchr`, the conversion of
`scanf` for floating-point numbers, and three ways in which a hand-written loop
cuts a string. For each loop a relation says which parts of the string it
separates, and the loop computes the only parts that stand in it.
-/
set_option autoImplicit false

namespace Iputils.ScanText

section
variable {α : Type*}

/-- `pre` is the longest prefix of `xs` all of whose elements satisfy `p`. -/
structure Munch (p : α → Bool) (xs pre post : List α) : Prop where
  eq : xs = pre ++ post
  all : ∀ x ∈ pre, p x
  stop : ∀ x ∈ post.head?, ¬ p x

theorem munch_iff {p : α → Bool} {xs pre post : List α} :
    Munch p xs pre post ↔ pre = xs.takeWhile p ∧ post = xs.dropWhile p := by
  constructor
  · intro hx
    rcases hx with ⟨rfl, hall, hstop⟩
    have hpost : post.takeWhile p = [] ∧ post.dropWhile p = post := by
      cases post with
      | nil => exact ⟨rfl, rfl⟩
      | cons x post => simp [hstop x (by simp)]
    rw [List.takeWhile_append_of_pos hall, List.dropWhile_append_of_pos hall, hpost.1, hpost.2,
      List.append_nil]
    exact ⟨rfl, rfl⟩
  · intro hx
    rcases hx with ⟨rfl, rfl⟩
    refine ⟨List.takeWhile_append_dropWhile.symm, fun x hx => List.mem_takeWhile_imp hx, ?_⟩
    intro x hx
    have h := List.head?_dropWhile_not p xs
    rw [Option.mem_def.mp hx] at h
    simp [h]

/-- `kept` is `xs` without the elements at its end that satisfy `p`. -/
structure Trim (p : α → Bool) (xs kept : List α) : Prop where
  split : ∃ tail, xs = kept ++ tail ∧ ∀ x ∈ tail, p x
  stop : ∀ x ∈ kept.getLast?, ¬ p x

theorem trim_iff {p : α → Bool} {xs kept : List α} :
    Trim p xs kept ↔ kept = xs.rdropWhile p := by
  constructor
  · intro hx
    rcases hx with ⟨⟨tail, rfl, hall⟩, hstop⟩
    have hm : Munch p (kept ++ tail).reverse tail.reverse kept.reverse :=
      ⟨by simp, by simpa using hall, by simpa using hstop⟩
    have hk := (munch_iff.mp hm).2
    rw [List.rdropWhile, ← hk, List.reverse_reverse]
  · intro heq
    subst heq
    have hm : Munch p xs.reverse (xs.reverse.takeWhile p) (xs.reverse.dropWhile p) :=
      munch_iff.mpr ⟨rfl, rfl⟩
    refine ⟨⟨(xs.reverse.takeWhile p).reverse, ?_, ?_⟩, ?_⟩
    · have h := congrArg List.reverse hm.eq
      rw [List.reverse_append, List.reverse_reverse] at h
      exact h
    · simpa using hm.all
    · simpa [List.rdropWhile] using hm.stop

/-- The prefix before the first suffix that satisfies `P`. -/
def cutAt (P : List α → Bool) : List α → List α
  | [] => []
  | x :: xs => if P (x :: xs) then [] else x :: cutAt P xs

structure Cut (P : List α → Bool) (xs pre : List α) : Prop where
  split : ∃ post, xs = pre ++ post ∧ (post = [] ∨ P post)
  first : ∀ k < pre.length, ¬ P (xs.drop k)

theorem cut_iff {P : List α → Bool} {xs pre : List α} : Cut P xs pre ↔ pre = cutAt P xs := by
  induction xs generalizing pre with
  | nil =>
      constructor
      · intro hx
        rcases hx with ⟨⟨post, heq, -⟩, -⟩
        exact (List.append_eq_nil_iff.mp heq.symm).1
      · intro heq
        subst heq
        exact ⟨⟨[], rfl, Or.inl rfl⟩, by simp [cutAt]⟩
  | cons x xs ih =>
      by_cases hP : P (x :: xs)
      · rw [cutAt, if_pos hP]
        constructor
        · intro hx
          rcases hx with ⟨-, hfirst⟩
          by_contra hne
          exact hfirst 0 (List.length_pos_iff.mpr hne) hP
        · intro heq
          subst heq
          exact ⟨⟨x :: xs, rfl, Or.inr hP⟩, by simp⟩
      · rw [cutAt, if_neg hP]
        constructor
        · intro hx
          rcases hx with ⟨⟨post, heq, hpost⟩, hfirst⟩
          cases pre with
          | nil =>
              rw [List.nil_append] at heq
              subst heq
              simp [hP] at hpost
          | cons y pre =>
              obtain ⟨rfl, rfl⟩ := List.cons.inj heq
              have hcut : Cut P (pre ++ post) pre :=
                ⟨⟨post, rfl, hpost⟩, fun k hk => hfirst (k + 1) (by simpa using hk)⟩
              rw [← ih.mp hcut]
        · intro heq
          subst heq
          obtain ⟨⟨post, heq, hpost⟩, hfirst⟩ := ih.mpr rfl
          refine ⟨⟨post, by rw [List.cons_append, ← heq], hpost⟩, fun k hk => ?_⟩
          cases k with
          | zero => exact hP
          | succ k => exact hfirst k (by simpa using hk)

end

/-- The suffix from the first `c` on. -/
def strchr (c : Char) : List Char → Option (List Char)
  | [] => none
  | x :: xs => if x = c then some (x :: xs) else strchr c xs

theorem strchr_some {c : Char} {s t : List Char} :
    strchr c s = some t ↔ ∃ pre post, s = pre ++ c :: post ∧ c ∉ pre ∧ t = c :: post := by
  induction s with
  | nil => simp [strchr]
  | cons x xs ih =>
      by_cases hx : x = c
      · subst hx
        simp only [strchr, if_true, Option.some.injEq]
        constructor
        · intro heq
          subst heq
          exact ⟨[], xs, rfl, by simp, rfl⟩
        · intro hx
          rcases hx with ⟨pre, post, heq, hpre, rfl⟩
          cases pre with
          | nil => exact heq
          | cons y pre =>
              obtain ⟨rfl, -⟩ := List.cons.inj heq
              exact absurd List.mem_cons_self hpre
      · simp only [strchr, if_neg hx, ih]
        constructor
        · intro hx
          rcases hx with ⟨pre, post, rfl, hpre, rfl⟩
          exact ⟨x :: pre, post, rfl, by simp [hpre, Ne.symm hx], rfl⟩
        · intro hx
          rcases hx with ⟨pre, post, heq, hpre, rfl⟩
          cases pre with
          | nil => exact absurd (List.cons.inj heq).1 hx
          | cons y pre =>
              obtain ⟨rfl, rfl⟩ := List.cons.inj heq
              exact ⟨pre, post, rfl, fun h => hpre (List.mem_cons_of_mem _ h), rfl⟩

/-- The suffix from the first occurrence of a pattern on. -/
def strstr (pattern : List Char) : List Char → Option (List Char)
  | [] => if pattern = [] then some [] else none
  | c :: s => if pattern <+: c :: s then some (c :: s) else strstr pattern s

theorem strstr_some {pattern s t : List Char} (h : strstr pattern s = some t) :
    pattern <+: t ∧ t <:+ s := by
  induction s with
  | nil =>
      unfold strstr at h
      split_ifs at h with hnil
      obtain rfl := Option.some.inj h
      rw [hnil]
      exact ⟨List.prefix_rfl, List.suffix_rfl⟩
  | cons c s ih =>
      unfold strstr at h
      split_ifs at h with hpattern
      · obtain rfl := Option.some.inj h
        exact ⟨hpattern, List.suffix_rfl⟩
      · exact ⟨(ih h).1, (ih h).2.trans (List.suffix_cons c s)⟩

/-- The characters that `isspace` accepts. -/
def isSpace (c : Char) : Bool :=
  c = ' ' || c = '\t' || c = '\n' || c = '\x0b' || c = '\x0c' || c = '\r'

def isHexDigit (c : Char) : Bool :=
  c.isDigit || ('a' ≤ c && c ≤ 'f') || ('A' ≤ c && c ≤ 'F')

/-- The text that a conversion has matched, and what follows it. -/
abbrev Item := List Char × List Char

def Item.after (pre : List Char) (item : Item) : Item := (pre ++ item.1, item.2)

def signItem : List Char → Item
  | [] => ([], [])
  | c :: s => if c = '+' ∨ c = '-' then ([c], s) else ([], c :: s)

/-- An exponent, if there is one. A marker without digits makes the item the
beginning of a number and not a number, as the C standard has it; glibc takes the
number in front of the marker. -/
def exponentItem (marker : Char) : List Char → Option Item
  | [] => some ([], [])
  | c :: s =>
      if c.toLower = marker then
        let sign := signItem s
        let digits := sign.2.takeWhile Char.isDigit
        if digits = [] then none
        else some (c :: sign.1 ++ digits, sign.2.dropWhile Char.isDigit)
      else some ([], c :: s)

def fractionItem (digit : Char → Bool) : List Char → Item
  | [] => ([], [])
  | c :: s => if c = '.' then ('.' :: s.takeWhile digit, s.dropWhile digit) else ([], c :: s)

def numberItem (digit : Char → Bool) (marker : Char) (s : List Char) : Option Item :=
  let whole := s.takeWhile digit
  let fraction := fractionItem digit (s.dropWhile digit)
  if whole = [] ∧ fraction.1.length ≤ 1 then none
  else (exponentItem marker fraction.2).map (Item.after (whole ++ fraction.1))

/-- The whole word, in any case. -/
def wordItem (word s : List Char) : Option Item :=
  if (s.take word.length).map Char.toLower = word then some (s.splitAt word.length) else none

def infinityItem (s : List Char) : Option Item :=
  (wordItem "inf".toList s).bind fun item =>
    if item.2.head?.map Char.toLower = some 'i' then
      (wordItem "inity".toList item.2).map (Item.after item.1)
    else some item

def nanItem (s : List Char) : Option Item :=
  (wordItem "nan".toList s).bind fun item =>
    if item.2.head? = some '(' then
      let tag := item.2.tail.takeWhile fun c => c.isAlphanum || c = '_'
      let rest := item.2.drop (tag.length + 1)
      if rest.head? = some ')' then some (item.1 ++ '(' :: tag ++ [')'], rest.tail) else none
    else some item

/-- What `%lf` matches behind the white space: the longest text that is or
begins a number, provided that it is one. -/
def floatItem (s : List Char) : Option Item :=
  let sign := signItem s
  let body := sign.2
  let item :=
    if body.head?.map Char.toLower = some 'i' then infinityItem body
    else if body.head?.map Char.toLower = some 'n' then nanItem body
    else if (body.take 2).map Char.toLower = "0x".toList then
      (numberItem isHexDigit 'p' (body.drop 2)).map (Item.after (body.take 2))
    else numberItem Char.isDigit 'e' body
  item.map (Item.after sign.1)

section Items

theorem signItem_append (s : List Char) : (signItem s).1 ++ (signItem s).2 = s := by
  cases s with
  | nil => rfl
  | cons c s =>
      unfold signItem
      dsimp only
      split_ifs <;> rfl

theorem exponentItem_append {marker : Char} {s : List Char} {item : Item}
    (h : exponentItem marker s = some item) : item.1 ++ item.2 = s := by
  cases s with
  | nil =>
      cases h
      rfl
  | cons c s =>
      unfold exponentItem at h
      dsimp only at h
      split_ifs at h
      · cases h
        dsimp only
        rw [List.cons_append, List.cons_append, List.append_assoc,
          List.takeWhile_append_dropWhile, signItem_append]
      · cases h
        rfl

theorem fractionItem_append (digit : Char → Bool) (s : List Char) :
    (fractionItem digit s).1 ++ (fractionItem digit s).2 = s := by
  cases s with
  | nil => rfl
  | cons c s =>
      unfold fractionItem
      dsimp only
      split_ifs with hc
      · rw [List.cons_append, List.takeWhile_append_dropWhile, hc]
      · rfl

theorem Item.after_append {pre rest : List Char} {item : Item} (h : item.1 ++ item.2 = rest) :
    (Item.after pre item).1 ++ (Item.after pre item).2 = pre ++ rest := by
  unfold Item.after
  rw [List.append_assoc, h]

theorem numberItem_append {digit : Char → Bool} {marker : Char} {s : List Char} {item : Item}
    (h : numberItem digit marker s = some item) : item.1 ++ item.2 = s := by
  unfold numberItem at h
  dsimp only at h
  split_ifs at h
  obtain ⟨e, he, rfl⟩ := Option.map_eq_some_iff.mp h
  rw [Item.after_append (exponentItem_append he), List.append_assoc, fractionItem_append,
    List.takeWhile_append_dropWhile]

theorem wordItem_append {word s : List Char} {item : Item} (h : wordItem word s = some item) :
    item.1 ++ item.2 = s := by
  unfold wordItem at h
  split_ifs at h
  cases h
  rw [List.splitAt_eq]
  exact List.take_append_drop _ s

theorem infinityItem_append {s : List Char} {item : Item} (h : infinityItem s = some item) :
    item.1 ++ item.2 = s := by
  obtain ⟨w, hw, h⟩ := Option.bind_eq_some_iff.mp h
  split_ifs at h
  · obtain ⟨w', hw', rfl⟩ := Option.map_eq_some_iff.mp h
    rw [Item.after_append (wordItem_append hw'), wordItem_append hw]
  · cases h
    exact wordItem_append hw

theorem nanItem_append {s : List Char} {item : Item} (h : nanItem s = some item) :
    item.1 ++ item.2 = s := by
  obtain ⟨⟨word, rest⟩, hw, h⟩ := Option.bind_eq_some_iff.mp h
  dsimp only at h
  split_ifs at h with hparen hclose
  · cases h
    cases rest with
    | nil => cases hparen
    | cons c t =>
        obtain rfl := Option.some.inj hparen
        have htag := List.prefix_iff_eq_append.mp
          (List.takeWhile_prefix (fun c => c.isAlphanum || c = '_') (l := t))
        rw [← wordItem_append hw]
        dsimp only at hclose ⊢
        rw [List.drop_succ_cons] at hclose ⊢
        obtain ⟨post, hpost⟩ : ∃ post, t.drop
            (t.takeWhile fun c => c.isAlphanum || c = '_').length = ')' :: post :=
          List.head?_eq_some_iff.mp hclose
        rw [List.tail_cons, hpost, List.tail_cons, List.append_assoc, List.append_assoc,
          List.singleton_append, List.cons_append, ← hpost, htag]
  · cases h
    exact wordItem_append hw

/-- A number and what follows it make up the text. -/
theorem floatItem_append {s : List Char} {item : Item} (h : floatItem s = some item) :
    item.1 ++ item.2 = s := by
  obtain ⟨b, hb, rfl⟩ := Option.map_eq_some_iff.mp h
  have hbody : b.1 ++ b.2 = (signItem s).2 := by
    split_ifs at hb
    · exact infinityItem_append hb
    · exact nanItem_append hb
    · obtain ⟨n, hn, rfl⟩ := Option.map_eq_some_iff.mp hb
      rw [Item.after_append (numberItem_append hn), List.take_append_drop]
    · exact numberItem_append hb
  rw [Item.after_append hbody, signItem_append]

end Items

section Digits

theorem isDigit_ne {c d : Char} (hc : c.isDigit = true) (hd : d.isDigit = false) : c ≠ d := by
  rintro rfl
  rw [hc] at hd
  cases hd

theorem toLower_digit {c : Char} (h : c.isDigit = true) : c.toLower = c := by
  unfold Char.isDigit at h
  rw [Bool.and_eq_true, decide_eq_true_iff, decide_eq_true_iff] at h
  unfold Char.toLower
  refine dif_neg fun hupper => ?_
  have h₁ : (65 : ℕ) ≤ c.val.toNat := UInt32.le_iff_toNat_le.mp hupper.1
  have h₂ : c.val.toNat ≤ 57 := UInt32.le_iff_toNat_le.mp h.2
  omega

theorem signItem_digit {d : Char} (hd : d.isDigit = true) (s : List Char) :
    signItem (d :: s) = ([], d :: s) :=
  if_neg (not_or.mpr ⟨isDigit_ne hd (by decide), isDigit_ne hd (by decide)⟩)

theorem letter_digit {c d : Char} (hd : d.isDigit = true) (s : List Char)
    (hc : c.isDigit = false) : ¬ (d :: s).head?.map Char.toLower = some c := by
  intro h
  rw [List.head?_cons, Option.map_some, toLower_digit hd, Option.some.injEq] at h
  exact isDigit_ne hd hc h

theorem not_hex {d : Char} {s : List Char} (hx : ∀ c ∈ s.head?, c.toLower ≠ 'x') :
    ¬ ((d :: s).take 2).map Char.toLower = "0x".toList := by
  cases s with
  | nil => exact fun h => absurd (List.cons.inj h).2 (by simp)
  | cons c s => exact fun h => hx c rfl (List.cons.inj (List.cons.inj h).2).1

/-- A digit starts a decimal number, unless an `x` follows. -/
theorem floatItem_digit {d : Char} {s : List Char} (hd : d.isDigit = true)
    (hx : ∀ c ∈ s.head?, c.toLower ≠ 'x') :
    floatItem (d :: s) = numberItem Char.isDigit 'e' (d :: s) := by
  unfold floatItem
  rw [signItem_digit hd]
  dsimp only
  rw [if_neg (letter_digit hd s (by decide)), if_neg (letter_digit hd s (by decide)),
    if_neg (not_hex hx)]
  cases numberItem Char.isDigit 'e' (d :: s) <;> rfl

end Digits

section Solid

def spaces : List Char := [' ', '\t', '\n', '\x0b', '\x0c', '\r']

theorem mem_spaces {c : Char} (h : isSpace c = true) : c ∈ spaces := by
  simp only [isSpace, Bool.or_eq_true, decide_eq_true_eq] at h
  simp only [spaces, List.mem_cons, List.not_mem_nil, or_false]
  tauto

/-- A class of characters that has no white space in it. -/
theorem not_isSpace_of {p : Char → Bool} (hp : spaces.any p = false) {c : Char} (h : p c = true) :
    isSpace c = false := by
  rw [Bool.eq_false_iff]
  intro hspace
  exact List.any_eq_false.mp hp c (mem_spaces hspace) h

theorem not_isSpace_toLower {c : Char} (h : isSpace c.toLower = false) : isSpace c = false := by
  have hlower : spaces.all (fun c => c.toLower = c) = true := by decide
  rw [Bool.eq_false_iff] at h ⊢
  intro hspace
  have hsame := List.all_eq_true.mp hlower c (mem_spaces hspace)
  rw [decide_eq_true_eq] at hsame
  rw [hsame] at h
  exact h hspace

/-- No white space stands in the text. -/
def Solid (s : List Char) : Prop := ∀ c ∈ s, isSpace c = false

instance (s : List Char) : Decidable (Solid s) := List.decidableBAll (fun c => isSpace c = false) s

theorem solid_nil : Solid [] := nofun

theorem Solid.append {s t : List Char} (hs : Solid s) (ht : Solid t) : Solid (s ++ t) :=
  fun c hc => (List.mem_append.mp hc).elim (hs c) (ht c)

theorem Solid.cons {c : Char} {s : List Char} (hc : isSpace c = false) (hs : Solid s) :
    Solid (c :: s) := by
  intro d hd
  obtain rfl | hd := List.mem_cons.mp hd
  · exact hc
  · exact hs d hd

theorem solid_takeWhile {p : Char → Bool} (hp : spaces.any p = false) (s : List Char) :
    Solid (s.takeWhile p) := fun _ hc => not_isSpace_of hp (List.mem_takeWhile_imp hc)

theorem solid_of_toLower {s : List Char} (h : Solid (s.map Char.toLower)) : Solid s :=
  fun c hc => not_isSpace_toLower (h c.toLower (List.mem_map_of_mem hc))

theorem solid_signItem (s : List Char) : Solid (signItem s).1 := by
  cases s with
  | nil => exact solid_nil
  | cons c s =>
      unfold signItem
      dsimp only
      split_ifs with hc
      · rcases hc with rfl | rfl
        · exact Solid.cons rfl solid_nil
        · exact Solid.cons rfl solid_nil
      · exact solid_nil

theorem solid_exponentItem {marker : Char} {s : List Char} {item : Item}
    (hm : isSpace marker = false) (h : exponentItem marker s = some item) : Solid item.1 := by
  cases s with
  | nil =>
      cases h
      exact solid_nil
  | cons c s =>
      unfold exponentItem at h
      dsimp only at h
      split_ifs at h with hc hd
      · cases h
        exact (Solid.cons (not_isSpace_toLower (by rw [hc]; exact hm)) (solid_signItem s)).append
          (solid_takeWhile (by decide) _)
      · cases h
        exact solid_nil

theorem solid_fractionItem {digit : Char → Bool} (hd : spaces.any digit = false) (s : List Char) :
    Solid (fractionItem digit s).1 := by
  cases s with
  | nil => exact solid_nil
  | cons c s =>
      unfold fractionItem
      dsimp only
      split_ifs
      · exact Solid.cons rfl (solid_takeWhile hd s)
      · exact solid_nil

theorem solid_numberItem {digit : Char → Bool} {marker : Char} {s : List Char} {item : Item}
    (hd : spaces.any digit = false) (hm : isSpace marker = false)
    (h : numberItem digit marker s = some item) : Solid item.1 := by
  unfold numberItem at h
  dsimp only at h
  split_ifs at h
  obtain ⟨e, he, rfl⟩ := Option.map_eq_some_iff.mp h
  exact ((solid_takeWhile hd s).append (solid_fractionItem hd _)).append (solid_exponentItem hm he)

theorem solid_wordItem {word s : List Char} {item : Item} (hw : Solid word)
    (h : wordItem word s = some item) : Solid item.1 := by
  unfold wordItem at h
  split_ifs at h with heq
  cases h
  rw [List.splitAt_eq]
  exact solid_of_toLower (by rw [heq]; exact hw)

theorem solid_infinityItem {s : List Char} {item : Item} (h : infinityItem s = some item) :
    Solid item.1 := by
  obtain ⟨w, hw, h⟩ := Option.bind_eq_some_iff.mp h
  have hinf := solid_wordItem (by unfold Solid; simp [isSpace]) hw
  split_ifs at h
  · obtain ⟨w', hw', rfl⟩ := Option.map_eq_some_iff.mp h
    exact hinf.append (solid_wordItem (by unfold Solid; simp [isSpace]) hw')
  · cases h
    exact hinf

theorem solid_nanItem {s : List Char} {item : Item} (h : nanItem s = some item) :
    Solid item.1 := by
  obtain ⟨w, hw, h⟩ := Option.bind_eq_some_iff.mp h
  have hnan := solid_wordItem (by unfold Solid; simp [isSpace]) hw
  dsimp only at h
  split_ifs at h
  · cases h
    exact (hnan.append (Solid.cons rfl (solid_takeWhile (by decide) _))).append
      (Solid.cons rfl solid_nil)
  · cases h
    exact hnan

/-- A number is one word. -/
theorem solid_floatItem {s : List Char} {item : Item} (h : floatItem s = some item) :
    Solid item.1 := by
  obtain ⟨b, hb, rfl⟩ := Option.map_eq_some_iff.mp h
  have hbody : Solid b.1 := by
    split_ifs at hb with hi hn hx
    · exact solid_infinityItem hb
    · exact solid_nanItem hb
    · obtain ⟨n, hn, rfl⟩ := Option.map_eq_some_iff.mp hb
      refine Solid.append (solid_of_toLower ?_) (solid_numberItem (by decide) rfl hn)
      rw [hx]
      unfold Solid
      simp [isSpace]
    · exact solid_numberItem (by decide) rfl hb
  exact (solid_signItem s).append hbody

end Solid

section Blank

/-- An item with more text behind it. -/
def Item.before (item : Item) (t : List Char) : Item := (item.1, item.2 ++ t)

variable (u v : List Char)

theorem munch_blank {p : Char → Bool} (hp : p ' ' = false) :
    (u ++ ' ' :: v).takeWhile p = u.takeWhile p ∧
      (u ++ ' ' :: v).dropWhile p = u.dropWhile p ++ ' ' :: v := by
  induction u with
  | nil => simp [hp]
  | cons c u ih =>
      rw [List.cons_append]
      cases hc : p c with
      | false => simp [hc]
      | true => simpa [hc] using ih

theorem signItem_blank : signItem (u ++ ' ' :: v) = (signItem u).before (' ' :: v) := by
  cases u with
  | nil => rfl
  | cons c u =>
      simp only [List.cons_append, signItem]
      split_ifs <;> rfl

theorem fractionItem_blank {digit : Char → Bool} (hd : digit ' ' = false) :
    fractionItem digit (u ++ ' ' :: v) = (fractionItem digit u).before (' ' :: v) := by
  cases u with
  | nil => rfl
  | cons c u =>
      simp only [List.cons_append, fractionItem, munch_blank u v hd]
      split_ifs <;> rfl

theorem exponentItem_blank {marker : Char} (hm : ' ' ≠ marker) :
    exponentItem marker (u ++ ' ' :: v) =
      (exponentItem marker u).map fun item => item.before (' ' :: v) := by
  cases u with
  | nil =>
      have hlower : ¬ (' ' : Char).toLower = marker := hm
      simp only [List.nil_append, exponentItem, if_neg hlower]
      rfl
  | cons c u =>
      have hdigits := munch_blank (signItem u).2 v (p := Char.isDigit) (by decide)
      simp only [List.cons_append, exponentItem, signItem_blank, Item.before, hdigits.1, hdigits.2]
      split_ifs <;> rfl

theorem numberItem_blank {digit : Char → Bool} {marker : Char} (hd : digit ' ' = false)
    (hm : ' ' ≠ marker) :
    numberItem digit marker (u ++ ' ' :: v) =
      (numberItem digit marker u).map fun item => item.before (' ' :: v) := by
  have hwhole := munch_blank u v hd
  simp only [numberItem, hwhole.1, hwhole.2, fractionItem_blank _ _ hd, Item.before,
    exponentItem_blank _ _ hm]
  split_ifs
  · rfl
  · rw [Option.map_map, Option.map_map]
    rfl

theorem wordItem_blank {word : List Char} (hw : ' ' ∉ word) :
    wordItem word (u ++ ' ' :: v) = (wordItem word u).map fun item => item.before (' ' :: v) := by
  by_cases hlen : word.length ≤ u.length
  · unfold wordItem
    rw [List.take_append_of_le_length hlen]
    split_ifs
    · simp [Item.before, List.splitAt_eq, List.take_append_of_le_length hlen,
        List.drop_append_of_le_length hlen]
    · rfl
  · have hshort : ¬ (u.take word.length).map Char.toLower = word := by
      intro h
      have hl := congrArg List.length h
      rw [List.length_map, List.length_take] at hl
      omega
    have hblank : ¬ ((u ++ ' ' :: v).take word.length).map Char.toLower = word := by
      intro h
      refine hw (h ▸ ?_)
      obtain ⟨k, hk⟩ : ∃ k, word.length = u.length + (k + 1) :=
        ⟨word.length - u.length - 1, by omega⟩
      rw [hk, List.take_length_add_append, List.take_succ_cons]
      simp
    rw [wordItem, if_neg hblank, wordItem, if_neg hshort]
    rfl

theorem head?_blank {c : Char} (hc : c ≠ ' ') :
    (u ++ ' ' :: v).head? = some c ↔ u.head? = some c := by
  cases u with
  | nil => simp [hc.symm]
  | cons d u => simp

theorem infinityItem_blank :
    infinityItem (u ++ ' ' :: v) = (infinityItem u).map fun item => item.before (' ' :: v) := by
  unfold infinityItem
  rw [wordItem_blank u v (by decide)]
  cases wordItem "inf".toList u with
  | none => rfl
  | some item =>
      simp only [Option.map_some, Option.bind_some, Item.before]
      have hhead : (item.2 ++ ' ' :: v).head?.map Char.toLower = some 'i' ↔
          item.2.head?.map Char.toLower = some 'i' := by
        cases item.2 with
        | nil => exact iff_of_false (by simp) (by simp)
        | cons d t => rfl
      simp only [hhead, wordItem_blank _ _ (by decide : ' ' ∉ "inity".toList)]
      split_ifs
      · rw [Option.map_map, Option.map_map]
        rfl
      · rfl

theorem nanItem_blank :
    nanItem (u ++ ' ' :: v) = (nanItem u).map fun item => item.before (' ' :: v) := by
  unfold nanItem
  rw [wordItem_blank u v (by decide)]
  cases wordItem "nan".toList u with
  | none => rfl
  | some item =>
      simp only [Option.map_some, Option.bind_some, Item.before,
        head?_blank _ _ (by decide : '(' ≠ ' ')]
      by_cases hparen : item.2.head? = some '('
      · obtain ⟨t, ht⟩ := List.head?_eq_some_iff.mp hparen
        have htag := (munch_blank t v (p := fun c => c.isAlphanum || c = '_') (by decide)).1
        rw [if_pos hparen, if_pos hparen, ht, List.cons_append, List.tail_cons, List.tail_cons,
          htag, List.drop_succ_cons, List.drop_succ_cons,
          List.drop_append_of_le_length (List.takeWhile_prefix _).length_le]
        simp only [head?_blank _ _ (by decide : ')' ≠ ' ')]
        generalize List.drop _ t = rest
        cases rest with
        | nil => rfl
        | cons d rest => split_ifs <;> rfl
      · rw [if_neg hparen, if_neg hparen]
        rfl

/-- A number does not reach beyond a blank. -/
theorem floatItem_blank :
    floatItem (u ++ ' ' :: v) = (floatItem u).map fun item => item.before (' ' :: v) := by
  unfold floatItem
  simp only [signItem_blank, Item.before]
  generalize (signItem u).2 = body
  have hletter : ∀ c : Char, c ≠ ' ' → ((body ++ ' ' :: v).head?.map Char.toLower = some c ↔
      body.head?.map Char.toLower = some c) := by
    intro c hc
    cases body with
    | nil => exact iff_of_false (by simpa using hc.symm) (by simp)
    | cons d t => rfl
  have hhex : ((body ++ ' ' :: v).take 2).map Char.toLower = "0x".toList ↔
      (body.take 2).map Char.toLower = "0x".toList := by
    match body with
    | [] => exact iff_of_false (by simp) (by simp)
    | [d] => exact iff_of_false (by simp) (by simp)
    | d :: e :: t => rfl
  simp only [hletter 'i' (by decide), hletter 'n' (by decide), hhex, infinityItem_blank,
    nanItem_blank, numberItem_blank _ _ (by decide : Char.isDigit ' ' = false)
      (by decide : ' ' ≠ 'e')]
  split_ifs with hi hn hx
  · rw [Option.map_map, Option.map_map]
    rfl
  · rw [Option.map_map, Option.map_map]
    rfl
  · have htwo : 2 ≤ body.length := by
      have hl := congrArg List.length hx
      rw [List.length_map, List.length_take] at hl
      have hword : "0x".toList.length = 2 := rfl
      omega
    rw [List.take_append_of_le_length htwo, List.drop_append_of_le_length htwo,
      numberItem_blank _ _ (by decide) (by decide)]
    simp only [Option.map_map]
    rfl
  · rw [Option.map_map, Option.map_map]
    rfl

end Blank

end Iputils.ScanText
