import Iputils.PrintfText

/-!
# JSON texts

A recursive-descent parser for JSON over lists of characters, and the laws that
a printer of objects needs: what a value text denotes, how the members of an
object compose, and that a comma in front of the closing brace is rejected. The
fuel bounds the recursion depth plus the number of members; `parse` gives one
unit for each character, which no text can use up.
-/
set_option autoImplicit false

namespace Iputils.JsonText
open PrintfText

inductive Json
  | null
  | bool (b : Bool)
  | num (text : List Char)
  | str (text : List Char)
  | arr (elements : List Json)
  | obj (members : List (List Char × Json))

def isWs (c : Char) : Bool := c = ' ' || c = '\t' || c = '\n' || c = '\r'

def skipWs (cs : List Char) : List Char := cs.dropWhile isWs

def hexDigit (c : Char) : Option ℕ :=
  if c.isDigit then some (c.toNat - 48)
  else if 'a' ≤ c ∧ c ≤ 'f' then some (c.toNat - 87)
  else if 'A' ≤ c ∧ c ≤ 'F' then some (c.toNat - 55)
  else none

/-- The character that a one-letter escape stands for. -/
def escapeChar (c : Char) : Option Char :=
  if c = '"' ∨ c = '\\' ∨ c = '/' then some c
  else if c = 'b' then some '\x08'
  else if c = 'f' then some '\x0c'
  else if c = 'n' then some '\n'
  else if c = 'r' then some '\r'
  else if c = 't' then some '\t'
  else none

/-- The four hexadecimal digits of an escape; a surrogate is decoded on its own. -/
def hexChar (a b c d : Char) : Option Char := do
  some (Char.ofNat ((← hexDigit a) * 4096 + (← hexDigit b) * 256 + (← hexDigit c) * 16 +
    (← hexDigit d)))

/-- Where a string is being read: between characters, behind a backslash, or
inside the digits of an escape, latest digit first. -/
inductive Scan
  | plain
  | escape
  | hex (digits : List Char)

/-- The characters of a string up to its closing quote. -/
def parseCharsFrom : Scan → List Char → Option (List Char × List Char)
  | _, [] => none
  | .plain, c :: cs =>
      if c = '"' then some ([], cs)
      else if c = '\\' then parseCharsFrom .escape cs
      else if c.toNat < 0x20 then none
      else (parseCharsFrom .plain cs).map fun p => (c :: p.1, p.2)
  | .escape, c :: cs =>
      if c = 'u' then parseCharsFrom (.hex []) cs
      else (escapeChar c).bind fun e => (parseCharsFrom .plain cs).map fun p => (e :: p.1, p.2)
  | .hex [z, y, x], c :: cs =>
      (hexChar x y z c).bind fun e => (parseCharsFrom .plain cs).map fun p => (e :: p.1, p.2)
  | .hex ds, c :: cs => parseCharsFrom (.hex (c :: ds)) cs

def parseChars (cs : List Char) : Option (List Char × List Char) := parseCharsFrom .plain cs

/-- Remove a literal word from the front. -/
def expect : List Char → List Char → Option (List Char)
  | [], cs => some cs
  | _ :: _, [] => none
  | w :: ws, c :: cs => if w = c then expect ws cs else none

/-- The integer part of a number: no leading zeros. -/
def parseInt : List Char → Option (List Char × List Char)
  | [] => none
  | c :: cs =>
      if c = '0' then some (['0'], cs)
      else if c.isDigit then some (c :: cs.takeWhile Char.isDigit, cs.dropWhile Char.isDigit)
      else none

/-- One digit or more. -/
def parseDigits (cs : List Char) : Option (List Char × List Char) :=
  if cs.takeWhile Char.isDigit = [] then none
  else some (cs.takeWhile Char.isDigit, cs.dropWhile Char.isDigit)

def parseFrac (cs : List Char) : Option (List Char × List Char) :=
  match expect ['.'] cs with
  | some cs => (parseDigits cs).map fun p => ('.' :: p.1, p.2)
  | none => some ([], cs)

/-- An optional sign, among those given. -/
def parseSign (signs cs : List Char) : List Char × List Char :=
  match cs with
  | [] => ([], [])
  | c :: cs => if c ∈ signs then ([c], cs) else ([], c :: cs)

def parseExp (cs : List Char) : Option (List Char × List Char) :=
  match cs with
  | [] => some ([], [])
  | e :: cs =>
      if e = 'e' ∨ e = 'E' then
        let (sign, cs) := parseSign ['+', '-'] cs
        (parseDigits cs).map fun p => (e :: (sign ++ p.1), p.2)
      else some ([], e :: cs)

def parseUnsigned (cs : List Char) : Option (List Char × List Char) := do
  let (i, cs) ← parseInt cs
  let (f, cs) ← parseFrac cs
  let (e, cs) ← parseExp cs
  some (i ++ f ++ e, cs)

def parseNumber (cs : List Char) : Option (List Char × List Char) :=
  let (sign, cs) := parseSign ['-'] cs
  (parseUnsigned cs).map fun p => (sign ++ p.1, p.2)

/-- The three literal names. -/
def parseName (cs : List Char) : Option (Json × List Char) :=
  ((expect "true".toList cs).map fun cs => (.bool true, cs)) <|>
  ((expect "false".toList cs).map fun cs => (.bool false, cs)) <|>
  ((expect "null".toList cs).map fun cs => (.null, cs))

mutual

def parseValue : ℕ → List Char → Option (Json × List Char)
  | 0, _ => none
  | _ + 1, [] => none
  | fuel + 1, c :: cs =>
      if c = '\x7b' then
        match expect ['\x7d'] (skipWs cs) with
        | some cs => some (.obj [], cs)
        | none => (parseMembers fuel (skipWs cs)).map fun p => (.obj p.1, p.2)
      else if c = '[' then
        match expect [']'] (skipWs cs) with
        | some cs => some (.arr [], cs)
        | none => (parseElements fuel (skipWs cs)).map fun p => (.arr p.1, p.2)
      else if c = '"' then (parseChars cs).map fun p => (.str p.1, p.2)
      else if c = '-' ∨ c.isDigit then (parseNumber (c :: cs)).map fun p => (.num p.1, p.2)
      else parseName (c :: cs)

/-- The members of an object up to its closing brace. -/
def parseMembers : ℕ → List Char → Option (List (List Char × Json) × List Char)
  | 0, _ => none
  | fuel + 1, cs => do
      let cs ← expect ['"'] cs
      let (key, cs) ← parseChars cs
      let cs ← expect [':'] (skipWs cs)
      let (value, cs) ← parseValue fuel (skipWs cs)
      match expect ['\x7d'] (skipWs cs) with
      | some cs => some ([(key, value)], cs)
      | none => do
          let cs ← expect [','] (skipWs cs)
          let (members, cs) ← parseMembers fuel (skipWs cs)
          some ((key, value) :: members, cs)

/-- The elements of an array up to its closing bracket. -/
def parseElements : ℕ → List Char → Option (List Json × List Char)
  | 0, _ => none
  | fuel + 1, cs => do
      let (value, cs) ← parseValue fuel cs
      match expect [']'] (skipWs cs) with
      | some cs => some ([value], cs)
      | none => do
          let cs ← expect [','] (skipWs cs)
          let (elements, cs) ← parseElements fuel (skipWs cs)
          some (value :: elements, cs)

end

/-- A text that is one JSON value, with white space around it. -/
def parse (cs : List Char) : Option Json :=
  match parseValue (cs.length + 1) (skipWs cs) with
  | some (value, rest) => if skipWs rest = [] then some value else none
  | none => none

example : (parse "\x7b\"a\": [1, -2.5e3], \"b\": \x7b\x7d\x7d".toList).isSome = true := by decide +kernel
example : (parse "\x7b\"a\": 1, \x7d".toList).isSome = false := by decide +kernel

/-- A character that stands for itself inside a string. -/
def CleanChar (c : Char) : Prop := 0x20 ≤ c.toNat ∧ c ≠ '"' ∧ c ≠ '\\'

instance (c : Char) : Decidable (CleanChar c) := inferInstanceAs (Decidable (_ ∧ _ ∧ _))

/-- A string without quotes, backslashes and control characters. -/
def Clean (s : List Char) : Prop := ∀ c ∈ s, CleanChar c

instance (s : List Char) : Decidable (Clean s) := List.decidableBAll CleanChar s

theorem parseChars_clean {s : List Char} (h : Clean s) (rest : List Char) :
    parseChars (s ++ '"' :: rest) = some (s, rest) := by
  unfold parseChars
  induction s with
  | nil => simp [parseCharsFrom]
  | cons c s ih =>
      obtain ⟨h₁, h₂, h₃⟩ := h c List.mem_cons_self
      have hs : Clean s := fun x hx => h x (List.mem_cons_of_mem c hx)
      simp [parseCharsFrom, h₂, h₃, Nat.not_lt.mpr h₁, ih hs]

/-- What may follow a value inside an object, or nothing at all. -/
def Stops (rest : List Char) : Prop := ∀ c ∈ rest.head?, c = ',' ∨ c = '\x7d'

theorem stops_comma (rest : List Char) : Stops (',' :: rest) := by simp [Stops]

theorem stops_brace (rest : List Char) : Stops ('\x7d' :: rest) := by simp [Stops]

theorem Stops.cases {rest : List Char} (h : Stops rest) :
    rest = [] ∨ ∃ c cs, rest = c :: cs ∧ (c = ',' ∨ c = '\x7d') := by
  cases rest with
  | nil => exact Or.inl rfl
  | cons c cs => exact Or.inr ⟨c, cs, rfl, h c rfl⟩

/-- An integer numeral: `0`, or digits that do not begin with `0`. -/
def Numeral (ds : List Char) : Prop :=
  ds = ['0'] ∨ ∃ d es, ds = d :: es ∧ d ≠ '0' ∧ ∀ c ∈ d :: es, c.isDigit = true

theorem takeWhile_digits {ds rest : List Char} (h : ∀ c ∈ ds, c.isDigit = true)
    (hs : Stops rest) :
    (ds ++ rest).takeWhile Char.isDigit = ds ∧ (ds ++ rest).dropWhile Char.isDigit = rest := by
  induction ds with
  | nil =>
      rcases hs.cases with rfl | ⟨c, cs, rfl, rfl | rfl⟩
      · exact ⟨rfl, rfl⟩
      · exact ⟨rfl, rfl⟩
      · exact ⟨rfl, rfl⟩
  | cons d ds ih =>
      have hd := h d List.mem_cons_self
      obtain ⟨h₁, h₂⟩ := ih fun c hc => h c (List.mem_cons_of_mem d hc)
      exact ⟨by simp [hd, h₁], by simp [hd, h₂]⟩

theorem parseUnsigned_numeral {ds rest : List Char} (h : Numeral ds) (hs : Stops rest) :
    parseUnsigned (ds ++ rest) = some (ds, rest) := by
  have hint : parseInt (ds ++ rest) = some (ds, rest) := by
    rcases h with rfl | ⟨d, es, rfl, hd, hall⟩
    · rfl
    · obtain ⟨h₁, h₂⟩ := takeWhile_digits (fun c hc => hall c (List.mem_cons_of_mem d hc)) hs
      simp [parseInt, hd, hall d List.mem_cons_self, h₁, h₂]
  have hfrac : parseFrac rest = some ([], rest) := by
    rcases hs.cases with rfl | ⟨c, cs, rfl, rfl | rfl⟩ <;> rfl
  have hexp : parseExp rest = some ([], rest) := by
    rcases hs.cases with rfl | ⟨c, cs, rfl, rfl | rfl⟩ <;> rfl
  simp [parseUnsigned, hint, hfrac, hexp]

/-- `text` is read as `value` with this much fuel, wherever a member may end. -/
structure Denotes (fuel : ℕ) (text : List Char) (value : Json) : Prop where
  start : ∀ rest, skipWs (text ++ rest) = text ++ rest
  parses : ∀ n rest, fuel ≤ n → Stops rest → parseValue n (text ++ rest) = some (value, rest)

theorem Denotes.mono {m n : ℕ} {text : List Char} {value : Json} (h : Denotes m text value)
    (hmn : m ≤ n) : Denotes n text value :=
  ⟨h.start, fun k rest hk => h.parses k rest (Nat.le_trans hmn hk)⟩

theorem denotes_str {s : List Char} (h : Clean s) : Denotes 1 ('"' :: s ++ ['"']) (.str s) where
  start _ := rfl
  parses n rest hn _ := by
    obtain ⟨n, rfl⟩ := Nat.exists_eq_add_of_le' hn
    simp [parseValue, parseChars_clean h]

theorem skipWs_digit {c : Char} (h : c.isDigit = true) (cs : List Char) :
    skipWs (c :: cs) = c :: cs := by
  have hw : isWs c = false := by
    by_contra hw
    simp only [isWs, Bool.not_eq_false, Bool.or_eq_true, decide_eq_true_eq] at hw
    rcases hw with ((rfl | rfl) | rfl) | rfl <;> exact absurd h (by decide)
  simp [skipWs, hw]

theorem isDigit_ne {c : Char} (h : c.isDigit = true) :
    c ≠ '\x7b' ∧ c ≠ '[' ∧ c ≠ '"' ∧ c ≠ '-' := by
  refine ⟨?_, ?_, ?_, ?_⟩ <;> rintro rfl <;> exact absurd h (by decide)

theorem Numeral.head {ds : List Char} (h : Numeral ds) :
    ∃ d es, ds = d :: es ∧ d.isDigit = true := by
  rcases h with rfl | ⟨d, es, rfl, -, hall⟩
  · exact ⟨'0', [], rfl, rfl⟩
  · exact ⟨d, es, rfl, hall d List.mem_cons_self⟩

theorem denotes_numeral {ds : List Char} (h : Numeral ds) : Denotes 1 ds (.num ds) := by
  obtain ⟨d, es, rfl, hd⟩ := h.head
  obtain ⟨h₁, h₂, h₃, h₄⟩ := isDigit_ne hd
  refine ⟨fun rest => skipWs_digit hd (es ++ rest), fun n rest hn hs => ?_⟩
  obtain ⟨n, rfl⟩ := Nat.exists_eq_add_of_le' hn
  have hu := parseUnsigned_numeral h hs
  simp only [List.cons_append] at hu
  simp [parseValue, h₁, h₂, h₃, h₄, hd, parseNumber, parseSign, hu]

theorem denotes_negative {ds : List Char} (h : Numeral ds) :
    Denotes 1 ('-' :: ds) (.num ('-' :: ds)) := by
  refine ⟨fun rest => rfl, fun n rest hn hs => ?_⟩
  obtain ⟨n, rfl⟩ := Nat.exists_eq_add_of_le' hn
  have hu := parseUnsigned_numeral h hs
  simp [parseValue, parseNumber, parseSign, hu]

theorem numeral_toDigits (n : ℕ) : Numeral (Nat.toDigits 10 n) := by
  rcases Nat.eq_zero_or_pos n with rfl | hn
  · exact Or.inl rfl
  · obtain ⟨d, es, he, hd⟩ := toDigits_head hn
    refine Or.inr ⟨d, es, he, hd, fun c hc => ?_⟩
    rw [← he] at hc
    exact isDigit_toDigits hc

/-- What `%d` prints is a JSON number. -/
theorem denotes_decText (x : ℤ) : Denotes 1 (decText x) (.num (decText x)) := by
  unfold decText
  split_ifs
  · exact denotes_negative (numeral_toDigits _)
  · exact denotes_numeral (numeral_toDigits _)

/-- A member whose key is clean and whose value text is known to be read back. -/
structure Member (fuel : ℕ) where
  key : List Char
  text : List Char
  value : Json
  clean : Clean key
  denotes : Denotes fuel text value

def Member.render {fuel : ℕ} (m : Member fuel) : List Char :=
  '"' :: m.key ++ "\": ".toList ++ m.text

def Member.pair {fuel : ℕ} (m : Member fuel) : List Char × Json := (m.key, m.value)

/-- Members separated by a comma and a blank. -/
def renderMembers {fuel : ℕ} : List (Member fuel) → List Char
  | [] => []
  | [m] => m.render
  | m :: ms => m.render ++ ", ".toList ++ renderMembers ms

/-- Members each followed by a comma and a blank. -/
def renderOpen {fuel : ℕ} : List (Member fuel) → List Char
  | [] => []
  | m :: ms => m.render ++ ", ".toList ++ renderOpen ms

/-- Reading a member leaves what follows it. -/
theorem parseMembers_render {fuel n : ℕ} (m : Member fuel) (hn : fuel ≤ n) {tail : List Char}
    (ht : Stops tail) :
    parseMembers (n + 1) (m.render ++ tail) =
      match expect ['\x7d'] (skipWs tail) with
      | some cs => some ([m.pair], cs)
      | none =>
          (expect [','] (skipWs tail)).bind fun cs =>
            (parseMembers n (skipWs cs)).bind fun p => some (m.pair :: p.1, p.2) := by
  have hr : m.render ++ tail = '"' :: (m.key ++ '"' :: ':' :: ' ' :: (m.text ++ tail)) := by
    simp [Member.render]
  have hk := parseChars_clean m.clean (':' :: ' ' :: (m.text ++ tail))
  have hcolon : expect [':'] (skipWs (':' :: ' ' :: (m.text ++ tail))) =
      some (' ' :: (m.text ++ tail)) := rfl
  have hws : skipWs (' ' :: (m.text ++ tail)) = m.text ++ tail := m.denotes.start tail
  have hv := m.denotes.parses n tail hn ht
  have hquote : expect ['"'] ('"' :: (m.key ++ '"' :: ':' :: ' ' :: (m.text ++ tail))) =
      some (m.key ++ '"' :: ':' :: ' ' :: (m.text ++ tail)) := rfl
  simp only [hr, parseMembers, hquote, Option.bind_eq_bind, Option.bind_some, hk, hcolon, hws, hv,
    Member.pair]

theorem parseMembers_last {fuel n : ℕ} (m : Member fuel) (hn : fuel ≤ n) (rest : List Char) :
    parseMembers (n + 1) (m.render ++ '\x7d' :: rest) = some ([m.pair], rest) := by
  rw [parseMembers_render m hn (stops_brace rest)]
  rfl

theorem parseMembers_more {fuel n : ℕ} (m : Member fuel) (hn : fuel ≤ n) (rest : List Char) :
    parseMembers (n + 1) (m.render ++ ", ".toList ++ rest) =
      (parseMembers n (skipWs rest)).map fun p => (m.pair :: p.1, p.2) := by
  rw [List.append_assoc]
  change parseMembers (n + 1) (m.render ++ ',' :: ' ' :: rest) = _
  rw [parseMembers_render m hn (stops_comma _)]
  change (parseMembers n (skipWs rest)).bind _ = _
  cases parseMembers n (skipWs rest) <;> rfl

theorem skipWs_renderMembers {fuel : ℕ} (m : Member fuel) (ms : List (Member fuel))
    (rest : List Char) :
    skipWs (renderMembers (m :: ms) ++ rest) = renderMembers (m :: ms) ++ rest := by
  cases ms <;> rfl

/-- The members of a nonempty object are read back in order. -/
theorem parseMembers_renderMembers {fuel n : ℕ} (m : Member fuel) (ms : List (Member fuel))
    (hn : fuel + ms.length ≤ n) (rest : List Char) :
    parseMembers (n + 1) (renderMembers (m :: ms) ++ '\x7d' :: rest) =
      some ((m :: ms).map Member.pair, rest) := by
  induction ms generalizing m n with
  | nil => exact parseMembers_last m hn rest
  | cons m' ms ih =>
      obtain ⟨n, rfl⟩ : ∃ k, n = k + 1 := ⟨n - 1, by simp only [List.length_cons] at hn; omega⟩
      simp only [List.length_cons] at hn
      have hm : renderMembers (m :: m' :: ms) ++ '\x7d' :: rest =
          m.render ++ ", ".toList ++ (renderMembers (m' :: ms) ++ '\x7d' :: rest) := by
        simp [renderMembers]
      rw [hm, parseMembers_more m (by omega), skipWs_renderMembers, ih m' (by omega)]
      rfl

/-- A comma in front of the closing brace is rejected. -/
theorem parseMembers_open {fuel n : ℕ} (ms : List (Member fuel)) (hn : fuel + ms.length ≤ n)
    (rest : List Char) : parseMembers n (renderOpen ms ++ '\x7d' :: rest) = none := by
  induction ms generalizing n with
  | nil =>
      cases n with
      | zero => simp [parseMembers]
      | succ n => simp [parseMembers, renderOpen, expect]
  | cons m ms ih =>
      obtain ⟨n, rfl⟩ : ∃ k, n = k + 1 := ⟨n - 1, by simp only [List.length_cons] at hn; omega⟩
      simp only [List.length_cons] at hn
      have hw : skipWs (renderOpen ms ++ '\x7d' :: rest) = renderOpen ms ++ '\x7d' :: rest := by
        cases ms <;> rfl
      rw [renderOpen, List.append_assoc, parseMembers_more m (by omega), hw, ih (by omega)]
      rfl

/-- The text of an object with these members. -/
def renderObject {fuel : ℕ} (ms : List (Member fuel)) : List Char :=
  '\x7b' :: renderMembers ms ++ ['\x7d']

theorem denotes_object {fuel : ℕ} (m : Member fuel) (ms : List (Member fuel)) :
    Denotes (fuel + ms.length + 2) (renderObject (m :: ms)) (.obj ((m :: ms).map Member.pair)) := by
  refine ⟨fun rest => rfl, fun n rest hn _ => ?_⟩
  obtain ⟨n, rfl⟩ := Nat.exists_eq_add_of_le' hn
  have hr : renderObject (m :: ms) ++ rest =
      '\x7b' :: (renderMembers (m :: ms) ++ '\x7d' :: rest) := by simp [renderObject]
  have hbrace : expect ['\x7d'] (renderMembers (m :: ms) ++ '\x7d' :: rest) = none := by
    cases ms <;> rfl
  have hms := parseMembers_renderMembers m ms (n := n + fuel + ms.length) (by omega) rest
  rw [hr, show n + (fuel + ms.length + 2) = (n + fuel + ms.length + 1) + 1 by omega]
  simp only [parseValue, if_true, skipWs_renderMembers, hbrace, hms, Option.map_some]

theorem Clean.newline {s : List Char} (h : Clean s) : '\n' ∉ s := by
  intro hn
  exact absurd (h '\n' hn).1 (by decide)

theorem newline_render {fuel : ℕ} {m : Member fuel} (h : '\n' ∉ m.text) : '\n' ∉ m.render := by
  simp [Member.render, h, m.clean.newline]

/-- An object whose values have no line break is printed on one line. -/
theorem newline_renderMembers {fuel : ℕ} {ms : List (Member fuel)}
    (h : ∀ m ∈ ms, '\n' ∉ m.text) : '\n' ∉ renderMembers ms := by
  induction ms with
  | nil => simp [renderMembers]
  | cons m ms ih =>
      have hm := newline_render (h m List.mem_cons_self)
      have hms := ih fun m' hm' => h m' (List.mem_cons_of_mem m hm')
      cases ms with
      | nil => exact hm
      | cons m' ms => simp [renderMembers, hm, hms]

theorem length_render {fuel : ℕ} (m : Member fuel) : 4 ≤ m.render.length := by
  simp only [Member.render, List.length_append, List.length_cons]
  have h : "\": ".toList.length = 3 := rfl
  omega

theorem length_renderMembers {fuel : ℕ} (ms : List (Member fuel)) :
    4 * ms.length ≤ (renderMembers ms).length := by
  induction ms with
  | nil => exact Nat.zero_le _
  | cons m ms ih =>
      have hm := length_render m
      cases ms with
      | nil => exact hm
      | cons m' ms =>
          simp only [renderMembers, List.length_append, List.length_cons] at ih ⊢
          omega

theorem length_renderOpen {fuel : ℕ} (ms : List (Member fuel)) :
    4 * ms.length ≤ (renderOpen ms).length := by
  induction ms with
  | nil => exact Nat.zero_le _
  | cons m ms ih =>
      have hm := length_render m
      simp only [renderOpen, List.length_append, List.length_cons]
      omega

/-- An object is read back as a whole text. -/
theorem parse_object {fuel : ℕ} (m : Member fuel) (ms : List (Member fuel))
    (hf : fuel ≤ 3 * ms.length + 5) :
    parse (renderObject (m :: ms)) = some (.obj ((m :: ms).map Member.pair)) := by
  have hlen := length_renderMembers (m :: ms)
  have hfuel : fuel + ms.length + 2 ≤ (renderObject (m :: ms)).length + 1 := by
    simp only [renderObject, List.length_append, List.length_cons] at hlen ⊢
    omega
  have hd := (denotes_object m ms).parses _ [] hfuel (by simp [Stops])
  rw [List.append_nil] at hd
  have hw : skipWs (renderObject (m :: ms)) = renderObject (m :: ms) := rfl
  simp only [parse, hw, hd]
  rfl

/-- An object whose last member is followed by a comma is not a JSON text. -/
theorem parse_open {fuel : ℕ} (m : Member fuel) (ms : List (Member fuel))
    (hf : fuel ≤ 3 * ms.length) :
    parse ('\x7b' :: renderOpen (m :: ms) ++ ['\x7d']) = none := by
  have hlen := length_renderOpen (m :: ms)
  have hn : fuel + (m :: ms).length ≤ (renderOpen (m :: ms)).length + 2 := by
    simp only [List.length_cons] at hlen ⊢
    omega
  have hms := parseMembers_open (m :: ms) hn []
  have hw : skipWs (renderOpen (m :: ms) ++ ['\x7d']) = renderOpen (m :: ms) ++ ['\x7d'] := rfl
  have hbrace : expect ['\x7d'] (renderOpen (m :: ms) ++ ['\x7d']) = none := rfl
  have hv : parseValue ((renderOpen (m :: ms)).length + 2 + 1)
      ('\x7b' :: (renderOpen (m :: ms) ++ ['\x7d'])) = none := by
    simp only [parseValue, if_true, hw, hbrace, hms, Option.map_none]
  have hlen' : ('\x7b' :: renderOpen (m :: ms) ++ ['\x7d']).length =
      (renderOpen (m :: ms)).length + 2 := by simp
  have hws : skipWs ('\x7b' :: renderOpen (m :: ms) ++ ['\x7d']) =
      '\x7b' :: (renderOpen (m :: ms) ++ ['\x7d']) := rfl
  simp only [parse, hws, hlen', hv]

/-- Only an opening brace begins an object. -/
theorem parseValue_obj {fuel : ℕ} {c : Char} {cs rest : List Char} {ps : List (List Char × Json)}
    (h : parseValue fuel (c :: cs) = some (.obj ps, rest)) : c = '\x7b' := by
  cases fuel with
  | zero => simp [parseValue] at h
  | succ fuel =>
      by_contra hc
      rw [parseValue, if_neg hc] at h
      split_ifs at h
      · split at h
        · simp at h
        · simp at h
      · simp at h
      · simp at h
      · simp [parseName] at h

/-- The first character behind white space tells what a text cannot be. -/
theorem parse_ne_obj {ws cs : List Char} {x : Char} (hws : ∀ c ∈ ws, isWs c = true)
    (hx : isWs x = false) (hne : x ≠ '\x7b') (ps : List (List Char × Json)) :
    parse (ws ++ x :: cs) ≠ some (.obj ps) := by
  intro h
  have hskip : skipWs (ws ++ x :: cs) = x :: cs := by
    rw [skipWs, List.dropWhile_append_of_pos hws, List.dropWhile_cons_of_neg (by simp [hx])]
  rw [parse, hskip] at h
  split at h
  · rename_i value rest hv
    split_ifs at h
    obtain rfl := Option.some.inj h
    exact hne (parseValue_obj hv)
  · cases h

end Iputils.JsonText
