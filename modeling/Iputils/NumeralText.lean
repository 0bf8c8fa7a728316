import Iputils.ScanText
import Iputils.JsonText

/-!
# Numbers at the front of a text

`strtod` takes the longest number at the front of a text and leaves the rest, whatever
it is. A number of a JSON text, with what can stand behind it in an object, is taken as
it stands.
-/
set_option autoImplicit false

namespace Iputils.NumeralText
open ScanText JsonText

/-- An exponent, if it has digits. -/
def exponentPrefix (marker : Char) (s : List Char) : Item := (exponentItem marker s).getD ([], s)

def numberPrefix (digit : Char → Bool) (marker : Char) (s : List Char) : Option Item :=
  let whole := s.takeWhile digit
  let fraction := fractionItem digit (s.dropWhile digit)
  if whole = [] ∧ fraction.1.length ≤ 1 then none
  else some (Item.after (whole ++ fraction.1) (exponentPrefix marker fraction.2))

def infinityPrefix (s : List Char) : Option Item := (infinityItem s).or (wordItem "inf".toList s)

def nanPrefix (s : List Char) : Option Item := (nanItem s).or (wordItem "nan".toList s)

/-- What `strtod` converts behind the white space: the longest text that is a number. -/
def strtodItem (s : List Char) : Option Item :=
  let sign := signItem s
  let body := sign.2
  let item :=
    if body.head?.map Char.toLower = some 'i' then infinityPrefix body
    else if body.head?.map Char.toLower = some 'n' then nanPrefix body
    else if (body.take 2).map Char.toLower = "0x".toList then
      ((numberPrefix isHexDigit 'p' (body.drop 2)).map (Item.after (body.take 2))).or
        (numberPrefix Char.isDigit 'e' body)
    else numberPrefix Char.isDigit 'e' body
  item.map (Item.after sign.1)

example : strtodItem "-1.5e+,".toList = some ("-1.5".toList, "e+,".toList) := by decide +kernel
example : strtodItem "0xg".toList = some ("0".toList, "xg".toList) := by decide +kernel

section Shape

structure Digits (ds : List Char) : Prop where
  ne_nil : ds ≠ []
  all : ∀ c ∈ ds, c.isDigit = true

def Fraction (f : List Char) : Prop := f = [] ∨ ∃ ds, f = '.' :: ds ∧ Digits ds

def Sign (s : List Char) : Prop := s = [] ∨ s = ['+'] ∨ s = ['-']

def Exponent (e : List Char) : Prop :=
  e = [] ∨ ∃ c sign ds, e = c :: (sign ++ ds) ∧ (c = 'e' ∨ c = 'E') ∧ Sign sign ∧ Digits ds

/-- The numbers of JSON, except that zeros in front do no harm here. -/
inductive JsonNumber : List Char → Prop
  | mk {sign whole fraction exponent : List Char} (hsign : Sign sign) (hwhole : Digits whole)
      (hfraction : Fraction fraction) (hexponent : Exponent exponent) :
      JsonNumber (sign ++ (whole ++ fraction ++ exponent))

theorem parseDigits_digits {cs ds r : List Char} (h : parseDigits cs = some (ds, r)) :
    cs = ds ++ r ∧ Digits ds := by
  unfold parseDigits at h
  split_ifs at h with hne
  obtain ⟨rfl, rfl⟩ := Prod.mk.inj (Option.some.inj h)
  exact ⟨List.takeWhile_append_dropWhile.symm, hne, fun _ hc => List.mem_takeWhile_imp hc⟩

theorem parseInt_digits {cs ds r : List Char} (h : parseInt cs = some (ds, r)) :
    cs = ds ++ r ∧ Digits ds := by
  cases cs with
  | nil => cases h
  | cons c cs =>
      unfold parseInt at h
      dsimp only at h
      split_ifs at h with hzero hdigit
      · obtain ⟨rfl, rfl⟩ := Prod.mk.inj (Option.some.inj h)
        exact ⟨by rw [hzero]; rfl, by simp, by simp⟩
      · obtain ⟨rfl, rfl⟩ := Prod.mk.inj (Option.some.inj h)
        refine ⟨by simp, by simp, List.forall_mem_cons.mpr ⟨hdigit, ?_⟩⟩
        exact fun _ hd => List.mem_takeWhile_imp hd

theorem expect_append {w cs r : List Char} (h : expect w cs = some r) : cs = w ++ r := by
  induction w generalizing cs with
  | nil => exact Option.some.inj h
  | cons c w ih =>
      cases cs with
      | nil => cases h
      | cons d cs =>
          unfold expect at h
          split_ifs at h with hc
          rw [hc, ih h]
          rfl

theorem parseFrac_fraction {cs f r : List Char} (h : parseFrac cs = some (f, r)) :
    cs = f ++ r ∧ Fraction f := by
  unfold parseFrac at h
  split at h
  · next cs' hdot =>
      obtain ⟨p, hp, heq⟩ := Option.map_eq_some_iff.mp h
      obtain ⟨rfl, rfl⟩ := Prod.mk.inj heq
      obtain ⟨rfl, hds⟩ := parseDigits_digits hp
      exact ⟨by simpa using expect_append hdot, .inr ⟨p.1, rfl, hds⟩⟩
  · obtain ⟨rfl, rfl⟩ := Prod.mk.inj (Option.some.inj h)
    exact ⟨rfl, .inl rfl⟩

theorem parseSign_sign {signs cs : List Char} (hsigns : ∀ c ∈ signs, Sign [c]) :
    cs = (parseSign signs cs).1 ++ (parseSign signs cs).2 ∧ Sign (parseSign signs cs).1 := by
  cases cs with
  | nil => exact ⟨rfl, .inl rfl⟩
  | cons c cs =>
      unfold parseSign
      dsimp only
      split_ifs with hc
      · exact ⟨rfl, hsigns c hc⟩
      · exact ⟨rfl, .inl rfl⟩

theorem parseExp_exponent {cs e r : List Char} (h : parseExp cs = some (e, r)) :
    cs = e ++ r ∧ Exponent e := by
  cases cs with
  | nil =>
      obtain ⟨rfl, rfl⟩ := Prod.mk.inj (Option.some.inj h)
      exact ⟨rfl, .inl rfl⟩
  | cons c cs =>
      unfold parseExp at h
      dsimp only at h
      split_ifs at h with hc
      · obtain ⟨p, hp, heq⟩ := Option.map_eq_some_iff.mp h
        obtain ⟨rfl, rfl⟩ := Prod.mk.inj heq
        obtain ⟨hrest, hds⟩ := parseDigits_digits hp
        obtain ⟨happend, hsign⟩ := @parseSign_sign ['+', '-'] cs (by simp [Sign])
        refine ⟨?_, .inr ⟨c, _, _, rfl, hc, hsign, hds⟩⟩
        rw [List.cons_append, List.append_assoc, ← hrest, ← happend]
      · obtain ⟨rfl, rfl⟩ := Prod.mk.inj (Option.some.inj h)
        exact ⟨rfl, .inl rfl⟩

/-- What a JSON reader takes for a number. -/
theorem parseNumber_number {cs t r : List Char} (h : parseNumber cs = some (t, r)) :
    cs = t ++ r ∧ JsonNumber t := by
  obtain ⟨happend, hsign⟩ := @parseSign_sign ['-'] cs (by simp [Sign])
  have hparts : parseNumber cs = (parseUnsigned (parseSign ['-'] cs).2).map fun p =>
      ((parseSign ['-'] cs).1 ++ p.1, p.2) := rfl
  rw [hparts] at h
  generalize parseSign ['-'] cs = sign at happend hsign h
  obtain ⟨p, hp, heq⟩ := Option.map_eq_some_iff.mp h
  obtain ⟨rfl, rfl⟩ := Prod.mk.inj heq
  obtain ⟨⟨i, cs₁⟩, hi, hp⟩ := Option.bind_eq_some_iff.mp hp
  obtain ⟨⟨f, cs₂⟩, hf, hp⟩ := Option.bind_eq_some_iff.mp hp
  obtain ⟨⟨e, cs₃⟩, he, hp⟩ := Option.bind_eq_some_iff.mp hp
  obtain rfl := Option.some.inj hp
  obtain ⟨hi, hwhole⟩ := parseInt_digits hi
  obtain ⟨rfl, hfraction⟩ := parseFrac_fraction hf
  obtain ⟨rfl, hexponent⟩ := parseExp_exponent he
  refine ⟨?_, .mk hsign hwhole hfraction hexponent⟩
  rw [happend, hi]
  simp only [List.append_assoc]

end Shape

section Reading

/-- What may stand behind a number in an object, or the end of the text. -/
def enders : List Char := [' ', '\t', '\n', '\r', ',', '\x7d']

instance {p : Char → Prop} [DecidablePred p] : Decidable (∀ c ∈ enders, p c) :=
  List.decidableBAll p enders

def Ends (r : List Char) : Prop := ∀ c ∈ r.head?, c ∈ enders

theorem Ends.head {r : List Char} {p : Char → Prop} (h : Ends r) (hp : ∀ c ∈ enders, p c) :
    ∀ c ∈ r.head?, p c := fun c hc => hp c (h c hc)

theorem Exponent.head {e r : List Char} {p : Char → Prop} (he : Exponent e) (hr : Ends r)
    (hp : ∀ c ∈ enders, p c) (hmarker : p 'e' ∧ p 'E') : ∀ c ∈ (e ++ r).head?, p c := by
  obtain rfl | ⟨c, sign, ds, rfl, rfl | rfl, -, -⟩ := he
  · exact hr.head hp
  · simpa using hmarker.1
  · simpa using hmarker.2

theorem Digits.munch {ds r : List Char} (h : Digits ds)
    (hr : ∀ c ∈ r.head?, c.isDigit = false) :
    (ds ++ r).takeWhile Char.isDigit = ds ∧ (ds ++ r).dropWhile Char.isDigit = r := by
  have hmunch : Munch Char.isDigit (ds ++ r) ds r :=
    ⟨rfl, h.all, fun c hc => by rw [hr c hc]; decide⟩
  obtain ⟨h₁, h₂⟩ := munch_iff.mp hmunch
  exact ⟨h₁.symm, h₂.symm⟩

theorem Digits.head {ds : List Char} (h : Digits ds) :
    ∃ d es, ds = d :: es ∧ d.isDigit = true := by
  obtain ⟨d, es, rfl⟩ := List.exists_cons_of_ne_nil h.ne_nil
  exact ⟨d, es, rfl, h.all d List.mem_cons_self⟩

theorem signItem_sign {sign ds r : List Char} (hsign : Sign sign) (hds : Digits ds) :
    signItem (sign ++ (ds ++ r)) = (sign, ds ++ r) := by
  obtain ⟨d, es, rfl, hd⟩ := hds.head
  obtain rfl | rfl | rfl := hsign
  · exact signItem_digit hd (es ++ r)
  · rfl
  · rfl

theorem exponentItem_exponent {e r : List Char} (he : Exponent e) (hr : Ends r) :
    exponentItem 'e' (e ++ r) = some (e, r) := by
  obtain rfl | ⟨c, sign, ds, rfl, hc, hsign, hds⟩ := he
  · cases r with
    | nil => rfl
    | cons c r =>
        have hmarker : c.toLower ≠ 'e' :=
          hr.head (p := fun c => c.toLower ≠ 'e') (by decide) c rfl
        simp only [List.nil_append, exponentItem, if_neg hmarker]
  · have hmarker : c.toLower = 'e' := by
      obtain rfl | rfl := hc <;> rfl
    obtain ⟨htake, hdrop⟩ := hds.munch (r := r) (hr.head (by decide))
    simp only [List.cons_append, List.append_assoc, exponentItem, if_pos hmarker,
      signItem_sign hsign hds, htake, hdrop, if_neg hds.ne_nil]

theorem fractionItem_fraction {f s : List Char} (hf : Fraction f)
    (hs : ∀ c ∈ s.head?, c.isDigit = false ∧ c ≠ '.') :
    fractionItem Char.isDigit (f ++ s) = (f, s) := by
  obtain rfl | ⟨ds, rfl, hds⟩ := hf
  · cases s with
    | nil => rfl
    | cons c s => exact if_neg (hs c rfl).2
  · obtain ⟨htake, hdrop⟩ := hds.munch fun c hc => (hs c hc).1
    simp only [List.cons_append, fractionItem, if_true, htake, hdrop]

theorem Fraction.head {f s : List Char} {p : Char → Prop} (hf : Fraction f)
    (hs : ∀ c ∈ s.head?, p c) (hdot : p '.') : ∀ c ∈ (f ++ s).head?, p c := by
  obtain rfl | ⟨ds, rfl, -⟩ := hf
  · exact hs
  · simpa using hdot

theorem numberPrefix_number {whole f e r : List Char} (hwhole : Digits whole) (hf : Fraction f)
    (he : Exponent e) (hr : Ends r) :
    numberPrefix Char.isDigit 'e' (whole ++ (f ++ (e ++ r))) = some (whole ++ f ++ e, r) := by
  have hstop : ∀ c ∈ (e ++ r).head?, c.isDigit = false ∧ c ≠ '.' :=
    he.head hr (by decide) (by decide)
  obtain ⟨htake, hdrop⟩ :=
    hwhole.munch (r := f ++ (e ++ r)) (hf.head (fun c hc => (hstop c hc).1) rfl)
  simp only [numberPrefix, htake, hdrop, fractionItem_fraction hf hstop, exponentPrefix,
    exponentItem_exponent he hr]
  rw [if_neg fun h => hwhole.ne_nil h.1]
  rfl

/-- A number of a JSON text is converted as a whole. -/
theorem strtodItem_number {t r : List Char} (ht : JsonNumber t) (hr : Ends r) :
    strtodItem (t ++ r) = some (t, r) := by
  obtain @⟨sign, whole, f, e, hsign, hwhole, hf, he⟩ := ht
  have hshape : sign ++ (whole ++ f ++ e) ++ r = sign ++ (whole ++ (f ++ (e ++ r))) := by
    simp only [List.append_assoc]
  have hnumber := numberPrefix_number hwhole hf he hr
  rw [hshape, strtodItem, signItem_sign hsign hwhole]
  dsimp only
  obtain ⟨d, ds, rfl, hd⟩ := hwhole.head
  -- the digits end before any letter but the marker of the exponent
  have hx : ∀ c ∈ (ds ++ (f ++ (e ++ r))).head?, c.toLower ≠ 'x' := by
    cases ds with
    | nil => exact hf.head (he.head hr (by decide) (by decide)) (by decide)
    | cons c ds =>
        intro x hxmem
        obtain rfl : c = x := by simpa using hxmem
        have hc := hwhole.all c (by simp)
        rw [toLower_digit hc]
        exact ScanText.isDigit_ne hc (by decide)
  rw [List.cons_append] at hnumber ⊢
  rw [if_neg (letter_digit hd _ (by decide)), if_neg (letter_digit hd _ (by decide)),
    if_neg (not_hex hx), hnumber]
  rfl

/-- A number begins with its sign or with a digit. -/
theorem JsonNumber.not_space {t : List Char} (ht : JsonNumber t) (r : List Char) :
    (t ++ r).dropWhile isSpace = t ++ r := by
  obtain @⟨sign, whole, f, e, hsign, hwhole, hf, he⟩ := ht
  have hhead : ∃ c s, sign ++ (whole ++ f ++ e) = c :: s ∧ isSpace c = false := by
    obtain ⟨d, ds, rfl, hd⟩ := hwhole.head
    obtain rfl | rfl | rfl := hsign
    · exact ⟨d, ds ++ f ++ e, rfl, not_isSpace_of (by decide) hd⟩
    · exact ⟨_, _, rfl, by decide⟩
    · exact ⟨_, _, rfl, by decide⟩
  obtain ⟨c, s, heq, hc⟩ := hhead
  rw [heq, List.cons_append, List.dropWhile_cons_of_neg (by simp [hc])]

end Reading

end Iputils.NumeralText
