import Iputils.JsonText

/-!
# Strings that are written as they are

An encoder may put the characters of a string between two quotes without escaping any
of them. The laws here say what a reader makes of the result, for any characters: the
string is read back exactly if it is clean, and no string that begins with it is read in
its place. The same holds for an object or an array of which all strings are written in
this way.
-/
set_option autoImplicit false

namespace Iputils.JsonReading
open PrintfText JsonText

section Strings

def quotes (s : List Char) : ℕ := s.count '"'

theorem quotes_cons (c : Char) (s : List Char) :
    quotes (c :: s) = quotes s + if c = '"' then 1 else 0 := by
  unfold quotes
  rw [List.count_cons]
  simp

theorem quotes_take_le (s : List Char) {m n : ℕ} (h : m ≤ n) :
    quotes (s.take m) ≤ quotes (s.take n) :=
  (List.take_sublist_take_left h).count_le '"'

theorem hexChar_quote {a b c d : Char} (h : '"' ∈ [a, b, c, d]) : hexChar a b c d = none := by
  unfold hexChar
  simp only [List.mem_cons, List.not_mem_nil, or_false] at h
  obtain rfl | rfl | rfl | rfl := h
  · rfl
  · cases hexDigit a <;> rfl
  · cases hexDigit a <;> cases hexDigit b <;> rfl
  · cases hexDigit a <;> cases hexDigit b <;> cases hexDigit c <;> rfl

/-- The next character is the last digit of an escape, or one more. -/
theorem hex_step (ds : List Char) (c : Char) (cs : List Char) :
    (∃ x y z, ds = [z, y, x] ∧ parseCharsFrom (.hex ds) (c :: cs) =
      (hexChar x y z c).bind fun e => (parseCharsFrom .plain cs).map fun p => (e :: p.1, p.2)) ∨
    parseCharsFrom (.hex ds) (c :: cs) = parseCharsFrom (.hex (c :: ds)) cs := by
  rcases ds with _ | ⟨z, _ | ⟨y, _ | ⟨x, _ | ⟨w, ds⟩⟩⟩⟩
  · exact .inr rfl
  · exact .inr rfl
  · exact .inr rfl
  · exact .inl ⟨x, y, z, rfl, rfl⟩
  · exact .inr rfl

/-- A quote is no digit of an escape. -/
theorem hex_quote {ds : List Char} (h : '"' ∈ ds) (cs : List Char) :
    parseCharsFrom (.hex ds) cs = none := by
  induction cs generalizing ds with
  | nil => rfl
  | cons c cs ih =>
      obtain ⟨x, y, z, rfl, hlast⟩ | hmore := hex_step ds c cs
      · have hnone : hexChar x y z c = none := by
          refine hexChar_quote ?_
          simp only [List.mem_cons, List.not_mem_nil, or_false] at h ⊢
          tauto
        rw [hlast, hnone]
        rfl
      · rw [hmore]
        exact ih (List.mem_cons_of_mem c h)

theorem hex_quote_cons (ds cs : List Char) : parseCharsFrom (.hex ds) ('"' :: cs) = none := by
  obtain ⟨x, y, z, rfl, hlast⟩ | hmore := hex_step ds '"' cs
  · rw [hlast, hexChar_quote (by simp)]
    rfl
  · rw [hmore]
    exact hex_quote List.mem_cons_self cs

theorem escapeChar_quote {c e : Char} (h : escapeChar c = some e) (hc : c = '"') : e = '"' := by
  subst hc
  exact (Option.some.inj h).symm

/-- What a reader makes of `s` and a closing quote: the string itself, something
shorter, or something that has more quotes than `s` before it is longer. -/
def Outcome (s rest : List Char) (p : List Char × List Char) : Prop :=
  (Clean s ∧ p = (s, rest)) ∨ p.1.length < s.length ∨ quotes s < quotes (p.1.take s.length)

/-- The same behind a backslash that has been read before. -/
def Behind (s : List Char) (p : List Char × List Char) : Prop :=
  p.1.length ≤ s.length ∨ quotes s < quotes (p.1.take (s.length + 1))

theorem behind_of_outcome {c e : Char} {s rest : List Char} {p : List Char × List Char}
    (hc : c = '"' → e = '"') (h : Outcome s rest p) : Behind (c :: s) (e :: p.1, p.2) := by
  obtain ⟨-, rfl⟩ | h | h := h
  · exact .inl le_rfl
  · exact .inl (Nat.succ_le_succ h.le)
  · have hle := quotes_take_le p.1 (Nat.le_add_right s.length 1)
    refine .inr ?_
    rw [List.length_cons, List.take_succ_cons, quotes_cons, quotes_cons]
    split_ifs with h₁ h₂ h₂
    · omega
    · exact absurd (hc h₁) h₂
    · omega
    · omega

theorem Behind.cons {c : Char} {s : List Char} {p : List Char × List Char} (hc : c ≠ '"')
    (h : Behind s p) : Behind (c :: s) p := by
  obtain h | h := h
  · exact .inl (h.trans (Nat.le_succ _))
  · refine .inr ?_
    rw [quotes_cons, if_neg hc]
    exact lt_of_lt_of_le h (quotes_take_le p.1 (Nat.le_succ _))

theorem Outcome.cons {c : Char} {s rest : List Char} {p : List Char × List Char}
    (hc : CleanChar c) (h : Outcome s rest p) : Outcome (c :: s) rest (c :: p.1, p.2) := by
  obtain ⟨hs, rfl⟩ | h | h := h
  · exact .inl ⟨List.forall_mem_cons.mpr ⟨hc, hs⟩, rfl⟩
  · exact .inr (.inl (Nat.succ_lt_succ h))
  · refine .inr (.inr ?_)
    rw [List.length_cons, List.take_succ_cons, quotes_cons, quotes_cons]
    omega

theorem outcome_of_behind {s rest : List Char} {p : List Char × List Char} (h : Behind s p) :
    Outcome ('\\' :: s) rest p := by
  obtain h | h := h
  · exact .inr (.inl (Nat.lt_succ_of_le h))
  · refine .inr (.inr ?_)
    rw [quotes_cons, if_neg (by decide)]
    exact h

/-- Reading on from any state. -/
theorem scan_outcome (s rest : List Char) :
    (∀ p, parseCharsFrom .plain (s ++ '"' :: rest) = some p → Outcome s rest p) ∧
    (∀ p, parseCharsFrom .escape (s ++ '"' :: rest) = some p → Behind s p) ∧
    ∀ ds p, parseCharsFrom (.hex ds) (s ++ '"' :: rest) = some p → Behind s p := by
  induction s with
  | nil =>
      refine ⟨fun p h => ?_, fun p h => ?_, fun ds p h => ?_⟩
      · obtain rfl := Option.some.inj h
        exact .inl ⟨nofun, rfl⟩
      · change (escapeChar '"').bind (fun e =>
          (parseCharsFrom .plain rest).map fun p => (e :: p.1, p.2)) = some p at h
        obtain ⟨q, -, rfl⟩ := Option.map_eq_some_iff.mp h
        exact .inr (by simp [quotes])
      · rw [List.nil_append, hex_quote_cons] at h
        cases h
  | cons c s ih =>
      obtain ⟨hplain, hescape, hhex⟩ := ih
      rw [List.cons_append]
      refine ⟨fun p h => ?_, fun p h => ?_, fun ds p h => ?_⟩
      · rw [parseCharsFrom] at h
        split_ifs at h with hquote hback hcontrol
        · obtain rfl := Option.some.inj h
          exact .inr (.inl (Nat.succ_pos _))
        · rw [hback]
          exact outcome_of_behind (hescape p h)
        · obtain ⟨q, hq, rfl⟩ := Option.map_eq_some_iff.mp h
          exact (hplain q hq).cons ⟨Nat.le_of_not_lt hcontrol, hquote, hback⟩
      · rw [parseCharsFrom] at h
        split_ifs at h with hu
        · exact (hhex [] p h).cons (by rw [hu]; decide)
        · obtain ⟨e, he, h⟩ := Option.bind_eq_some_iff.mp h
          obtain ⟨q, hq, rfl⟩ := Option.map_eq_some_iff.mp h
          exact behind_of_outcome (escapeChar_quote he) (hplain q hq)
      · by_cases hc : c = '"'
        · rw [hc, hex_quote_cons] at h
          cases h
        · obtain ⟨x, y, z, rfl, hlast⟩ | hmore := hex_step ds c (s ++ '"' :: rest)
          · rw [hlast] at h
            obtain ⟨e, -, h⟩ := Option.bind_eq_some_iff.mp h
            obtain ⟨q, hq, rfl⟩ := Option.map_eq_some_iff.mp h
            exact behind_of_outcome (fun h => absurd h hc) (hplain q hq)
          · rw [hmore] at h
            exact (hhex (c :: ds) p h).cons hc

/-- If a reader finds the string, perhaps with more behind it, the string is clean. -/
theorem parseChars_front {s more rest : List Char} {r : List Char}
    (h : parseChars (s ++ '"' :: rest) = some (s ++ more, r)) :
    Clean s ∧ more = [] ∧ r = rest := by
  obtain ⟨hs, hp⟩ | hlen | hquotes := (scan_outcome s rest).1 _ h
  · obtain ⟨hmore, rfl⟩ := Prod.mk.inj hp
    exact ⟨hs, List.append_right_eq_self.mp hmore, rfl⟩
  · rw [List.length_append] at hlen
    omega
  · rw [List.take_left] at hquotes
    omega

theorem parseChars_iff {s rest r : List Char} :
    parseChars (s ++ '"' :: rest) = some (s, r) ↔ Clean s ∧ r = rest := by
  constructor
  · intro h
    have hread : parseChars (s ++ '"' :: rest) = some (s ++ [], r) := by rw [List.append_nil, h]
    obtain ⟨hs, -, hr⟩ := parseChars_front hread
    exact ⟨hs, hr⟩
  · rintro ⟨hs, rfl⟩
    exact parseChars_clean hs _

end Strings

section Values

/-- A value as an encoder writes it that escapes nothing. -/
inductive Raw
  | str (s : List Char)
  | num (x : ℤ)
  | arr (ss : List (List Char))

def quoted (s : List Char) : List Char := '"' :: (s ++ ['"'])

/-- Texts with a comma and a blank between them. -/
def joined : List (List Char) → List Char
  | [] => []
  | u :: us => u ++ us.flatMap fun u => ',' :: ' ' :: u

def Raw.text : Raw → List Char
  | .str s => quoted s
  | .num x => decText x
  | .arr ss => '[' :: (joined (ss.map quoted) ++ [']'])

def Raw.json : Raw → Json
  | .str s => .str s
  | .num x => .num (decText x)
  | .arr ss => .arr (ss.map .str)

/-- All strings of a value are clean. -/
def Raw.Clean : Raw → Prop
  | .str s => JsonText.Clean s
  | .num _ => True
  | .arr ss => ∀ s ∈ ss, JsonText.Clean s

/-- The fuel that reading takes. -/
def Raw.weight : Raw → ℕ
  | .str _ | .num _ => 1
  | .arr ss => ss.length + 2

theorem parseValue_quoted (n : ℕ) (s tail : List Char) :
    parseValue (n + 1) (quoted s ++ tail) =
      (parseChars (s ++ '"' :: tail)).map fun p => (.str p.1, p.2) := by
  have hshape : quoted s ++ tail = '"' :: (s ++ '"' :: tail) := by simp [quoted]
  rw [hshape, parseValue, if_neg (by decide), if_neg (by decide), if_pos rfl]

theorem parseValue_quoted_iff {n : ℕ} {s tail rest : List Char} :
    parseValue (n + 1) (quoted s ++ tail) = some (.str s, rest) ↔ Clean s ∧ rest = tail := by
  rw [parseValue_quoted, ← parseChars_iff, Option.map_eq_some_iff]
  constructor
  · rintro ⟨p, hp, heq⟩
    obtain ⟨hs, rfl⟩ := Prod.mk.inj heq
    rw [hp, ← Json.str.inj hs]
  · exact fun h => ⟨(s, rest), h, rfl⟩

theorem skipWs_quote (cs : List Char) : skipWs ('"' :: cs) = '"' :: cs := rfl

/-- Elements in front of others. -/
theorem parseElements_more {n : ℕ} (v : Json) {cs tail : List Char}
    (h : parseValue n cs = some (v, ',' :: ' ' :: '"' :: tail)) :
    parseElements (n + 1) cs =
      (parseElements n ('"' :: tail)).map fun p => (v :: p.1, p.2) := by
  have hcomma : skipWs (',' :: ' ' :: '"' :: tail) = ',' :: ' ' :: '"' :: tail := rfl
  have hend : expect [']'] (',' :: ' ' :: '"' :: tail) = none := rfl
  have hsep : expect [','] (',' :: ' ' :: '"' :: tail) = some (' ' :: '"' :: tail) := rfl
  have hblank : skipWs (' ' :: '"' :: tail) = '"' :: tail := rfl
  rw [parseElements, h]
  simp only [Option.bind_eq_bind, Option.bind_some, hcomma, hend, hsep, hblank]
  cases parseElements n ('"' :: tail) <;> rfl

theorem parseElements_last {n : ℕ} (v : Json) {cs tail : List Char}
    (h : parseValue n cs = some (v, ']' :: tail)) :
    parseElements (n + 1) cs = some ([v], tail) := by
  have hend : expect [']'] (skipWs (']' :: tail)) = some tail := rfl
  rw [parseElements, h]
  simp only [Option.bind_eq_bind, Option.bind_some, hend]

/-- The first element has been read as a value. -/
theorem parseElements_head {n : ℕ} {cs rest : List Char} {v : Json} {vs : List Json}
    (h : parseElements (n + 1) cs = some (v :: vs, rest)) : ∃ r, parseValue n cs = some (v, r) := by
  rw [parseElements] at h
  obtain ⟨⟨w, r⟩, hw, h⟩ := Option.bind_eq_some_iff.mp h
  refine ⟨r, ?_⟩
  dsimp only at h
  split at h
  · obtain ⟨hv, -⟩ := Prod.mk.inj (Option.some.inj h)
    rw [hw, (List.cons.inj hv).1]
  · obtain ⟨cs', -, h⟩ := Option.bind_eq_some_iff.mp h
    obtain ⟨p, -, h⟩ := Option.bind_eq_some_iff.mp h
    obtain ⟨hv, -⟩ := Prod.mk.inj (Option.some.inj h)
    rw [hw, (List.cons.inj hv).1]

theorem joined_cons (u v : List Char) (us : List (List Char)) :
    joined (u :: v :: us) = u ++ ',' :: ' ' :: joined (v :: us) := by
  simp [joined]

theorem parseElements_iff {n : ℕ} {s : List Char} {ss : List (List Char)} {tail rest : List Char}
    (hn : ss.length + 2 ≤ n) :
    parseElements n (joined ((s :: ss).map quoted) ++ ']' :: tail) =
        some ((s :: ss).map .str, rest) ↔
      (∀ t ∈ s :: ss, Clean t) ∧ rest = tail := by
  obtain ⟨n, rfl⟩ : ∃ k, n = k + 1 + 1 := ⟨n - 2, by omega⟩
  induction ss generalizing s n with
  | nil =>
      have hshape : joined ([s].map quoted) ++ ']' :: tail = quoted s ++ ']' :: tail := by
        simp [joined]
      rw [hshape]
      constructor
      · intro h
        obtain ⟨r, hr⟩ := parseElements_head h
        obtain ⟨hs, rfl⟩ := parseValue_quoted_iff.mp hr
        rw [parseElements_last _ hr] at h
        obtain ⟨-, hrest⟩ := Prod.mk.inj (Option.some.inj h)
        exact ⟨by simpa using hs, hrest.symm⟩
      · rintro ⟨hs, rfl⟩
        exact parseElements_last _
          (parseValue_quoted_iff.mpr ⟨hs s List.mem_cons_self, rfl⟩)
  | cons t ss ih =>
      rw [List.length_cons] at hn
      obtain ⟨n, rfl⟩ : ∃ k, n = k + 1 := ⟨n - 1, by omega⟩
      obtain ⟨more, hmore⟩ : ∃ more,
          joined ((t :: ss).map quoted) ++ ']' :: tail = '"' :: more := by
        exact ⟨_, rfl⟩
      have hshape : joined ((s :: t :: ss).map quoted) ++ ']' :: tail =
          quoted s ++ ',' :: ' ' :: '"' :: more := by
        rw [← hmore, List.map_cons, List.map_cons, joined_cons]
        simp
      have htail := ih (s := t) (n := n) (by omega)
      rw [hmore] at htail
      rw [hshape]
      constructor
      · intro h
        obtain ⟨r, hr⟩ := parseElements_head h
        obtain ⟨hs, rfl⟩ := parseValue_quoted_iff.mp hr
        rw [parseElements_more _ hr] at h
        obtain ⟨p, hp, heq⟩ := Option.map_eq_some_iff.mp h
        obtain ⟨hvs, hrest⟩ := Prod.mk.inj heq
        obtain ⟨hall, hr⟩ := htail.mp (by rw [hp, ← hrest, ← (List.cons.inj hvs).2])
        exact ⟨List.forall_mem_cons.mpr ⟨hs, hall⟩, hr⟩
      · rintro ⟨hall, hrest⟩
        obtain ⟨hs, hall⟩ := List.forall_mem_cons.mp hall
        rw [parseElements_more _ (parseValue_quoted_iff.mpr ⟨hs, rfl⟩), htail.mpr ⟨hall, hrest⟩]
        rfl

theorem parseElements_ne_nil {n : ℕ} {cs rest : List Char} :
    parseElements n cs ≠ some ([], rest) := by
  intro h
  cases n with
  | zero => simp [parseElements] at h
  | succ n =>
      rw [parseElements] at h
      obtain ⟨⟨v, r⟩, -, h⟩ := Option.bind_eq_some_iff.mp h
      dsimp only at h
      split at h
      · cases h
      · obtain ⟨cs', -, h⟩ := Option.bind_eq_some_iff.mp h
        obtain ⟨p, -, h⟩ := Option.bind_eq_some_iff.mp h
        cases h

/-- A string that is read from this text, perhaps with more behind it. -/
theorem parseValue_front {n : ℕ} {s more tail rest : List Char}
    (h : parseValue n (quoted s ++ tail) = some (.str (s ++ more), rest)) :
    Clean s ∧ more = [] ∧ rest = tail := by
  cases n with
  | zero => simp [parseValue] at h
  | succ n =>
      rw [parseValue_quoted] at h
      obtain ⟨p, hp, heq⟩ := Option.map_eq_some_iff.mp h
      obtain ⟨hstr, rfl⟩ := Prod.mk.inj heq
      exact parseChars_front (by rw [hp, ← Json.str.inj hstr])

/-- The same for the first element of an array. -/
theorem parseElements_front {n : ℕ} {s more tail rest : List Char} {vs : List Json}
    (h : parseElements n (quoted s ++ tail) = some (.str (s ++ more) :: vs, rest)) :
    Clean s ∧ more = [] ∧ ∃ k, n = k + 1 ∧
      parseValue k (quoted s ++ tail) = some (.str s, tail) := by
  cases n with
  | zero => simp [parseElements] at h
  | succ n =>
      obtain ⟨r, hr⟩ := parseElements_head h
      obtain ⟨hs, rfl, rfl⟩ := parseValue_front hr
      rw [List.append_nil] at hr
      exact ⟨hs, rfl, n, rfl, hr⟩

/-- A reader does not stop in front of a comma. -/
theorem parseElements_ne_singleton {n : ℕ} {s tail rest : List Char} :
    parseElements n (quoted s ++ ',' :: ' ' :: '"' :: tail) ≠ some ([.str s], rest) := by
  intro h
  have hread : parseElements n (quoted s ++ ',' :: ' ' :: '"' :: tail) =
      some (.str (s ++ []) :: [], rest) := by rw [List.append_nil, h]
  obtain ⟨-, -, k, rfl, hk⟩ := parseElements_front hread
  rw [parseElements_more _ hk] at h
  obtain ⟨p, hp, heq⟩ := Option.map_eq_some_iff.mp h
  obtain ⟨hnil, -⟩ := Prod.mk.inj heq
  refine @parseElements_ne_nil k ('"' :: tail) p.2 ?_
  rw [hp, ← (List.cons.inj hnil).2]

theorem text_head (v : Raw) (tail : List Char) : skipWs (v.text ++ tail) = v.text ++ tail := by
  cases v with
  | str s => rfl
  | num x => exact (denotes_decText x).start tail
  | arr ss => rfl

theorem parseValue_arr {n : ℕ} {ss : List (List Char)} {tail rest : List Char}
    (hlen : ss.length + 2 ≤ n) :
    parseValue n ((Raw.arr ss).text ++ tail) = some ((Raw.arr ss).json, rest) ↔
      (Raw.arr ss).Clean ∧ rest = tail := by
  obtain ⟨n, rfl⟩ : ∃ k, n = k + 1 := ⟨n - 1, by omega⟩
  have hshape : (Raw.arr ss).text ++ tail = '[' :: (joined (ss.map quoted) ++ ']' :: tail) := by
    simp [Raw.text]
  rw [hshape, parseValue, if_neg (by decide), if_pos rfl]
  cases ss with
  | nil =>
      have hend : expect [']'] (skipWs (joined ([].map quoted) ++ ']' :: tail)) =
          some tail := rfl
      rw [hend]
      simp [Raw.json, Raw.Clean, eq_comm]
  | cons s ss =>
      have hend : expect [']'] (skipWs (joined ((s :: ss).map quoted) ++ ']' :: tail)) = none :=
        rfl
      have hstart : skipWs (joined ((s :: ss).map quoted) ++ ']' :: tail) =
          joined ((s :: ss).map quoted) ++ ']' :: tail := rfl
      have helements := @parseElements_iff n s ss tail rest
        (by rw [List.length_cons] at hlen; omega)
      rw [hend, hstart]
      dsimp only
      rw [Option.map_eq_some_iff]
      change _ ↔ (∀ t ∈ s :: ss, Clean t) ∧ rest = tail
      rw [← helements]
      constructor
      · rintro ⟨p, hp, heq⟩
        obtain ⟨hvs, rfl⟩ := Prod.mk.inj heq
        rw [hp, ← Json.arr.inj hvs]
      · exact fun h => ⟨_, h, rfl⟩

/-- A value is read back exactly if its strings are clean. -/
theorem parseValue_iff {n : ℕ} {v : Raw} {tail rest : List Char} (hn : v.weight ≤ n)
    (ht : Stops tail) :
    parseValue n (v.text ++ tail) = some (v.json, rest) ↔ v.Clean ∧ rest = tail := by
  cases v with
  | str s =>
      obtain ⟨n, rfl⟩ : ∃ k, n = k + 1 := Nat.exists_eq_add_of_le' hn
      exact parseValue_quoted_iff
  | num x =>
      have hread := (denotes_decText x).parses n tail hn ht
      have heq : parseValue n ((Raw.num x).text ++ tail) = some ((Raw.num x).json, rest) ↔
          tail = rest := by
        change parseValue n (decText x ++ tail) = _ ↔ _
        rw [hread]
        simp [Raw.json]
      rw [heq]
      exact ⟨fun h => ⟨trivial, h.symm⟩, fun h => h.2.symm⟩
  | arr ss => exact parseValue_arr hn

/-- An array that begins with a string. -/
theorem parseValue_array {n : ℕ} {cs rest : List Char} {j : Json}
    (h : parseValue n ('[' :: '"' :: cs) = some (j, rest)) :
    ∃ k vs, j = .arr vs ∧ parseElements k ('"' :: cs) = some (vs, rest) := by
  cases n with
  | zero => simp [parseValue] at h
  | succ n =>
      have hend : expect [']'] (skipWs ('"' :: cs)) = none := rfl
      rw [parseValue, if_neg (by decide), if_pos rfl, hend, skipWs_quote] at h
      obtain ⟨p, hp, heq⟩ := Option.map_eq_some_iff.mp h
      obtain ⟨rfl, rfl⟩ := Prod.mk.inj heq
      exact ⟨n, p.1, rfl, hp⟩

end Values

section Members

/-- A member with a clean key. -/
structure Entry where
  key : List Char
  clean : Clean key
  value : Raw

def Entry.text (e : Entry) : List Char := '"' :: (e.key ++ '"' :: ':' :: ' ' :: e.value.text)

def Entry.pair (e : Entry) : List Char × Json := (e.key, e.value.json)

/-- An object up to its closing brace. -/
def openObject (es : List Entry) : List Char := '\x7b' :: joined (es.map Entry.text)

def weight (es : List Entry) : ℕ := (es.map fun e => e.value.weight + 1).sum

theorem parseMembers_value {n : ℕ} {key cs : List Char} (hkey : Clean key)
    (hcs : skipWs cs = cs) :
    parseMembers (n + 1) ('"' :: (key ++ '"' :: ':' :: ' ' :: cs)) =
      (parseValue n cs).bind fun p =>
        match expect ['\x7d'] (skipWs p.2) with
        | some cs => some ([(key, p.1)], cs)
        | none =>
            (expect [','] (skipWs p.2)).bind fun cs =>
              (parseMembers n (skipWs cs)).bind fun q => some ((key, p.1) :: q.1, q.2) := by
  have hchars := parseChars_clean hkey (':' :: ' ' :: cs)
  have hcolon : expect [':'] (skipWs (':' :: ' ' :: cs)) = some (' ' :: cs) := rfl
  have hblank : skipWs (' ' :: cs) = cs := hcs
  have hquote : expect ['"'] ('"' :: (key ++ '"' :: ':' :: ' ' :: cs)) =
      some (key ++ '"' :: ':' :: ' ' :: cs) := rfl
  rw [parseMembers, hquote, Option.bind_eq_bind, Option.bind_some, hchars, Option.bind_eq_bind,
    Option.bind_some]
  dsimp only
  rw [hcolon, Option.bind_eq_bind, Option.bind_some, hblank]
  rfl

/-- The first member has been read as a value. -/
theorem parseMembers_head {n : ℕ} {key cs rest : List Char} (hkey : Clean key)
    (hcs : skipWs cs = cs) {m : List Char × Json} {ms : List (List Char × Json)}
    (h : parseMembers (n + 1) ('"' :: (key ++ '"' :: ':' :: ' ' :: cs)) = some (m :: ms, rest)) :
    m.1 = key ∧ ∃ r, parseValue n cs = some (m.2, r) := by
  rw [parseMembers_value hkey hcs] at h
  obtain ⟨⟨v, r⟩, hv, h⟩ := Option.bind_eq_some_iff.mp h
  have hm : m = (key, v) := by
    dsimp only at h
    split at h
    · obtain ⟨hv, -⟩ := Prod.mk.inj (Option.some.inj h)
      exact (List.cons.inj hv).1.symm
    · obtain ⟨cs, -, h⟩ := Option.bind_eq_some_iff.mp h
      obtain ⟨p, -, h⟩ := Option.bind_eq_some_iff.mp h
      obtain ⟨hv, -⟩ := Prod.mk.inj (Option.some.inj h)
      exact (List.cons.inj hv).1.symm
  subst hm
  exact ⟨rfl, r, hv⟩

theorem text_append (e : Entry) (tail : List Char) :
    e.text ++ tail = '"' :: (e.key ++ '"' :: ':' :: ' ' :: (e.value.text ++ tail)) := by
  simp [Entry.text]

/-- The first of the members that are read has the value of the first entry. -/
theorem entry_head {n : ℕ} {e : Entry} {cs rest : List Char} {m : List Char × Json}
    {ms : List (List Char × Json)}
    (h : parseMembers (n + 1) (e.text ++ cs) = some (m :: ms, rest)) :
    ∃ r, parseValue n (e.value.text ++ cs) = some (m.2, r) := by
  rw [text_append] at h
  exact (parseMembers_head e.clean (text_head e.value cs) h).2

theorem entry_last {n : ℕ} {e : Entry} {v : Json} {tail : List Char}
    (h : parseValue n (e.value.text ++ '\x7d' :: tail) = some (v, '\x7d' :: tail)) :
    parseMembers (n + 1) (e.text ++ '\x7d' :: tail) = some ([(e.key, v)], tail) := by
  rw [text_append, parseMembers_value e.clean (text_head e.value _), h]
  rfl

theorem entry_more {n : ℕ} {e : Entry} {v : Json} {tail : List Char}
    (h : parseValue n (e.value.text ++ ',' :: ' ' :: '"' :: tail) =
      some (v, ',' :: ' ' :: '"' :: tail)) :
    parseMembers (n + 1) (e.text ++ ',' :: ' ' :: '"' :: tail) =
      (parseMembers n ('"' :: tail)).map fun q => ((e.key, v) :: q.1, q.2) := by
  rw [text_append, parseMembers_value e.clean (text_head e.value _), h]
  change (parseMembers n ('"' :: tail)).bind _ = _
  cases parseMembers n ('"' :: tail) <;> rfl

theorem parseMembers_iff {n : ℕ} {e : Entry} {es : List Entry} {tail rest : List Char}
    (hn : weight (e :: es) ≤ n) :
    parseMembers n (joined ((e :: es).map Entry.text) ++ '\x7d' :: tail) =
        some ((e :: es).map Entry.pair, rest) ↔
      (∀ f ∈ e :: es, f.value.Clean) ∧ rest = tail := by
  induction es generalizing e n with
  | nil =>
      obtain ⟨n, rfl⟩ : ∃ k, n = k + 1 := ⟨n - 1, by unfold weight at hn; simp at hn; omega⟩
      have hweight : e.value.weight ≤ n := by simpa [weight] using hn
      have hshape : joined ([e].map Entry.text) ++ '\x7d' :: tail = e.text ++ '\x7d' :: tail := by
        simp [joined]
      rw [hshape]
      constructor
      · intro h
        obtain ⟨r, hr⟩ := entry_head h
        obtain ⟨hclean, rfl⟩ := (parseValue_iff hweight (stops_brace tail)).mp hr
        rw [entry_last hr] at h
        obtain ⟨-, hrest⟩ := Prod.mk.inj (Option.some.inj h)
        exact ⟨by simpa using hclean, hrest.symm⟩
      · rintro ⟨hclean, rfl⟩
        exact entry_last ((parseValue_iff hweight (stops_brace _)).mpr
          ⟨hclean e List.mem_cons_self, rfl⟩)
  | cons f es ih =>
      have hsplit : weight (e :: f :: es) = e.value.weight + 1 + weight (f :: es) := by
        simp [weight]
      obtain ⟨n, rfl⟩ : ∃ k, n = k + 1 := ⟨n - 1, by omega⟩
      obtain ⟨more, hmore⟩ : ∃ more,
          joined ((f :: es).map Entry.text) ++ '\x7d' :: tail = '"' :: more := by
        exact ⟨_, rfl⟩
      have hshape : joined ((e :: f :: es).map Entry.text) ++ '\x7d' :: tail =
          e.text ++ ',' :: ' ' :: '"' :: more := by
        rw [← hmore, List.map_cons, List.map_cons, joined_cons]
        simp
      have hweight : e.value.weight ≤ n := by omega
      have htail := ih (e := f) (n := n) (by omega)
      rw [hmore] at htail
      rw [hshape]
      constructor
      · intro h
        obtain ⟨r, hr⟩ := entry_head h
        obtain ⟨hclean, rfl⟩ := (parseValue_iff hweight (stops_comma _)).mp hr
        rw [entry_more hr] at h
        obtain ⟨p, hp, heq⟩ := Option.map_eq_some_iff.mp h
        obtain ⟨hms, hrest⟩ := Prod.mk.inj heq
        obtain ⟨hall, hr⟩ := htail.mp (by rw [hp, ← hrest, ← (List.cons.inj hms).2])
        exact ⟨List.forall_mem_cons.mpr ⟨hclean, hall⟩, hr⟩
      · rintro ⟨hall, hrest⟩
        obtain ⟨hclean, hall⟩ := List.forall_mem_cons.mp hall
        rw [entry_more ((parseValue_iff hweight (stops_comma _)).mpr ⟨hclean, rfl⟩),
          htail.mpr ⟨hall, hrest⟩]
        rfl

theorem length_joined (us : List (List Char)) : (us.map List.length).sum ≤ (joined us).length := by
  cases us with
  | nil => exact le_rfl
  | cons u us =>
      have hmore : (us.map List.length).sum ≤ (us.flatMap fun u => ',' :: ' ' :: u).length := by
        induction us with
        | nil => exact le_rfl
        | cons v us ih =>
            rw [List.flatMap_cons, List.length_append, List.map_cons, List.sum_cons]
            simp only [List.length_cons]
            omega
      rw [joined, List.length_append, List.map_cons, List.sum_cons]
      omega

theorem weight_le_text (v : Raw) : v.weight ≤ v.text.length := by
  cases v with
  | str s => simp [Raw.weight, Raw.text, quoted]
  | num x =>
      have hne : decText x ≠ [] := by
        unfold decText
        split_ifs
        · exact List.cons_ne_nil _ _
        · exact Nat.toDigits_ne_nil
      exact List.length_pos_iff.mpr hne
  | arr ss =>
      have hle := length_joined (ss.map quoted)
      have hsum : ss.length ≤ ((ss.map quoted).map List.length).sum := by
        induction ss with
        | nil => exact le_rfl
        | cons s ss ih =>
            have := ih (length_joined _)
            simp only [List.map_cons, List.sum_cons, List.length_cons, quoted]
            omega
      simp only [Raw.weight, Raw.text, List.length_cons, List.length_append, List.length_nil]
      omega

theorem weight_le (es : List Entry) : weight es ≤ (joined (es.map Entry.text)).length := by
  refine le_trans ?_ (length_joined _)
  induction es with
  | nil => exact le_rfl
  | cons e es ih =>
      have hle := weight_le_text e.value
      have hcons : weight (e :: es) = e.value.weight + 1 + weight es := by simp [weight]
      simp only [List.map_cons, List.sum_cons, Entry.text, List.length_cons,
        List.length_append] at ih ⊢
      omega

/-- Reading an object is reading its members. -/
theorem parse_eq (e : Entry) (es : List Entry) :
    parse (openObject (e :: es) ++ ['\x7d']) =
      (parseMembers (openObject (e :: es) ++ ['\x7d']).length
        (joined ((e :: es).map Entry.text) ++ '\x7d' :: [])).bind fun p =>
          if skipWs p.2 = [] then some (.obj p.1) else none := by
  have hshape : openObject (e :: es) ++ ['\x7d'] =
      '\x7b' :: (joined ((e :: es).map Entry.text) ++ '\x7d' :: []) := by simp [openObject]
  have hbrace : expect ['\x7d'] (skipWs (joined ((e :: es).map Entry.text) ++ '\x7d' :: [])) =
      none := rfl
  have hstart : skipWs (joined ((e :: es).map Entry.text) ++ '\x7d' :: []) =
      joined ((e :: es).map Entry.text) ++ '\x7d' :: [] := rfl
  have hskip : skipWs (openObject (e :: es) ++ ['\x7d']) = openObject (e :: es) ++ ['\x7d'] := rfl
  have hvalue : parseValue ((openObject (e :: es) ++ ['\x7d']).length + 1)
      (openObject (e :: es) ++ ['\x7d']) =
      (parseMembers (openObject (e :: es) ++ ['\x7d']).length
        (joined ((e :: es).map Entry.text) ++ '\x7d' :: [])).map fun p => (.obj p.1, p.2) := by
    generalize (openObject (e :: es) ++ ['\x7d']).length = n
    rw [hshape, parseValue, if_pos rfl, hbrace, hstart]
  unfold parse
  rw [hskip, hvalue]
  cases parseMembers (openObject (e :: es) ++ ['\x7d']).length
    (joined ((e :: es).map Entry.text) ++ '\x7d' :: []) <;> rfl

theorem parse_eq_obj {e : Entry} {es : List Entry} {ms : List (List Char × Json)} :
    parse (openObject (e :: es) ++ ['\x7d']) = some (.obj ms) ↔
      ∃ rest, skipWs rest = [] ∧ parseMembers (openObject (e :: es) ++ ['\x7d']).length
        (joined ((e :: es).map Entry.text) ++ '\x7d' :: []) = some (ms, rest) := by
  rw [parse_eq, Option.bind_eq_some_iff]
  constructor
  · rintro ⟨p, hp, h⟩
    split_ifs at h with hrest
    exact ⟨p.2, hrest, by rw [hp, ← Json.obj.inj (Option.some.inj h)]⟩
  · rintro ⟨rest, hrest, h⟩
    exact ⟨_, h, if_pos hrest⟩

theorem weight_le_object (e : Entry) (es : List Entry) :
    weight (e :: es) ≤ (openObject (e :: es) ++ ['\x7d']).length := by
  have hle := weight_le (e :: es)
  rw [openObject, List.length_append, List.length_cons]
  omega

/-- An object is read back exactly if all of its strings are clean. -/
theorem parse_openObject {es : List Entry} (hne : es ≠ []) :
    parse (openObject es ++ ['\x7d']) = some (.obj (es.map Entry.pair)) ↔
      ∀ e ∈ es, e.value.Clean := by
  obtain ⟨e, es, rfl⟩ := List.exists_cons_of_ne_nil hne
  rw [parse_eq_obj]
  constructor
  · rintro ⟨rest, -, h⟩
    exact ((parseMembers_iff (weight_le_object e es)).mp h).1
  · exact fun h => ⟨[], rfl, (parseMembers_iff (weight_le_object e es)).mpr ⟨h, rfl⟩⟩

/-- The value of the first member is read from the text behind its key. -/
theorem parse_front {key cs : List Char} (hkey : Clean key) (hcs : skipWs cs = cs)
    {m : List Char × Json} {ms : List (List Char × Json)}
    (h : parse ('\x7b' :: '"' :: (key ++ '"' :: ':' :: ' ' :: cs)) = some (.obj (m :: ms))) :
    m.1 = key ∧ ∃ n rest, parseValue n cs = some (m.2, rest) := by
  have hskip : skipWs ('\x7b' :: '"' :: (key ++ '"' :: ':' :: ' ' :: cs)) =
      '\x7b' :: '"' :: (key ++ '"' :: ':' :: ' ' :: cs) := rfl
  have hbrace : expect ['\x7d'] (skipWs ('"' :: (key ++ '"' :: ':' :: ' ' :: cs))) = none := rfl
  unfold parse at h
  rw [hskip, parseValue, if_pos rfl, hbrace, skipWs_quote] at h
  cases hread : parseMembers ('\x7b' :: '"' :: (key ++ '"' :: ':' :: ' ' :: cs)).length
      ('"' :: (key ++ '"' :: ':' :: ' ' :: cs)) with
  | none =>
      rw [hread] at h
      cases h
  | some p =>
      rw [hread] at h
      simp only [Option.map_some] at h
      split_ifs at h
      rw [List.length_cons] at hread
      have hp : p = (m :: ms, p.2) := by rw [← Json.obj.inj (Option.some.inj h)]
      rw [hp] at hread
      obtain ⟨hm, r, hr⟩ := parseMembers_head hkey hcs hread
      exact ⟨hm, _, r, hr⟩

end Members

end Iputils.JsonReading
