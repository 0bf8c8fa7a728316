import Iputils.IntegerText
import Iputils.JsonReading
import Iputils.PrintedTimes
import Iputils.QuotedWords

/-!
# The fields of an answer

The client of the bridge looks for a key and its quotes anywhere in the text of an answer
and reads what stands behind the colon. It does not parse the text: a string value that
equals the key is found as well, and some escapes are not decoded.
-/
set_option autoImplicit false

namespace Iputils.BridgeFields
open JsonText ScanText QuotedWords IntegerText PrintfText LineTimes PrintedTimes

section Code

/-- `json_locate`; the needle has a buffer of 128 bytes. -/
def jsonLocate (json key : List Char) : Option (List Char) :=
  let needle := quoted key
  if needle.length ≥ 128 then none
  else
    match strstr needle json with
    | none => none
    | some p =>
        match skipWs (p.drop needle.length) with
        | ':' :: p => some (skipWs p)
        | _ => none

/-- The character that is stored for an escape. -/
def unescape (c : Char) : Char :=
  if c = 'n' then '\n' else if c = 'r' then '\r' else if c = 't' then '\t' else c

/-- The copying loop of `json_field_str`: whether it ends at a quote, and what the buffer
holds then. -/
def copyField (cap : ℕ) (out : List Char) : List Char → Bool × List Char
  | [] => (false, out)
  | '"' :: _ => (true, out)
  | '\\' :: c :: p =>
      if out.length + 1 ≥ cap then (false, out) else copyField cap (out ++ [unescape c]) p
  | c :: p => if out.length + 1 ≥ cap then (false, out) else copyField cap (out ++ [c]) p

/-- `json_field_str` and the buffer behind it, which holds nothing before. -/
def fieldBuffer (json key : List Char) (cap : ℕ) : Bool × List Char :=
  match jsonLocate json key with
  | some ('"' :: p) => copyField cap [] p
  | _ => (false, [])

def stored : Bool × List Char → Option (List Char)
  | (true, out) => some out
  | (false, _) => none

def jsonFieldStr (json key : List Char) (cap : ℕ) : Option (List Char) :=
  stored (fieldBuffer json key cap)

/-- `json_field_int`; a text without digits is not converted. -/
def jsonFieldInt (json key : List Char) : Option ℤ :=
  (jsonLocate json key).bind fun p =>
    (scanInteger .ten p).map fun r => HopTable.longClamp r.1

/-- `capture_bridge_error`: the text that is kept if the answer has the key. A string that
does not end in the buffer leaves its beginning there. -/
def captureBridgeError (resp : List Char) : Option (List Char) :=
  if strstr (quoted "error".toList) resp = none then none
  else
    let err := (fieldBuffer resp "error".toList 512).2
    some (if err = [] then "(no detail)".toList else err)

end Code

section Objects

/-- The value of a field as it stands in the text. -/
inductive FieldValue
  | text (s : List Char)
  | bare (t : List Char)
deriving Repr, DecidableEq

structure Field where
  key : List Char
  value : FieldValue
deriving Repr, DecidableEq

def FieldValue.render : FieldValue → List Char
  | .text s => quoted s
  | .bare t => t

/-- The words of a field, with the text behind each of them. -/
def Field.words (f : Field) (sep : List Char) : List (List Char × List Char) :=
  match f.value with
  | .text s => [(f.key, [':']), (s, sep)]
  | .bare t => [(f.key, ':' :: (t ++ sep))]

def wordsOf : List Field → List (List Char × List Char)
  | [] => []
  | [f] => f.words ['\x7d']
  | f :: g :: fs => f.words [','] ++ wordsOf (g :: fs)

/-- An object without white space. -/
def objectOf (fs : List Field) : List Char := '\x7b' :: weave (wordsOf fs)

example : objectOf [⟨"ok".toList, .bare "true".toList⟩, ⟨"id".toList, .text "x".toList⟩] =
    "\x7b\"ok\":true,\"id\":\"x\"\x7d".toList := by decide

/-- The text from a value on. -/
def valueOn (v : FieldValue) : List Field → List Char
  | [] => v.render ++ ['\x7d']
  | fs => v.render ++ ',' :: weave (wordsOf fs)

/-- A key that no text between two words can be. -/
structure Key (key : List Char) : Prop where
  short : key.length < 126
  quote : '"' ∉ key
  head : ∀ c ∈ key.head?, c ≠ ':' ∧ c ≠ ',' ∧ c ≠ '\x7d'
  ne_nil : key ≠ []

/-- A field without quotes inside its parts. -/
structure Field.Plain (f : Field) : Prop where
  key : '"' ∉ f.key
  text : ∀ s, f.value = .text s → '"' ∉ s
  bare : ∀ t, f.value = .bare t → '"' ∉ t ∧ ∀ c ∈ t.head?, isWs c = false

theorem plain_text {k s : List Char} (hk : '"' ∉ k) (hs : '"' ∉ s) :
    Field.Plain ⟨k, .text s⟩ where
  key := hk
  text _ h := by
    cases h
    exact hs
  bare _ h := by cases h

theorem plain_bare {k t : List Char} (hk : '"' ∉ k) (ht : '"' ∉ t)
    (hhead : ∀ c ∈ t.head?, isWs c = false) : Field.Plain ⟨k, .bare t⟩ where
  key := hk
  text _ h := by cases h
  bare _ h := by
    cases h
    exact ⟨ht, hhead⟩

variable {key sep : List Char} {f : Field} {fs before after : List Field} {v : FieldValue}

theorem Key.not_gap (h : Key key) {c : Char} (hc : c = ':' ∨ c = ',' ∨ c = '\x7d')
    (gap : List Char) : c :: gap ≠ key := by
  rintro rfl
  obtain ⟨hcolon, hcomma, hbrace⟩ := h.head c rfl
  tauto

/-- Where a list of fields ends or another field follows. -/
def sepOf : List Field → List Char
  | [] => ['\x7d']
  | _ => [',']

theorem wordsOf_cons (f : Field) (fs : List Field) :
    wordsOf (f :: fs) = f.words (sepOf fs) ++ wordsOf fs := by
  cases fs with
  | nil => rw [wordsOf, sepOf, wordsOf, List.append_nil]
  | cons g fs => rfl

theorem sepOf_cases (fs : List Field) : sepOf fs = [','] ∨ sepOf fs = ['\x7d'] := by
  cases fs with
  | nil => exact Or.inr rfl
  | cons g fs => exact Or.inl rfl

theorem woven_words (hkey : Key key) (hf : f.Plain) (fs : List Field) :
    Woven key (f.words (sepOf fs)) := by
  have hsep : '"' ∉ sepOf fs ∧ sepOf fs ≠ key := by
    rcases sepOf_cases fs with h | h
    · rw [h]
      exact ⟨by simp, hkey.not_gap (by simp) _⟩
    · rw [h]
      exact ⟨by simp, hkey.not_gap (by simp) _⟩
  unfold Field.words
  intro p hp
  cases hv : f.value with
  | text s =>
      simp only [hv, List.mem_cons, List.not_mem_nil, or_false] at hp
      rcases hp with rfl | rfl
      · exact ⟨hf.key, by simp, hkey.not_gap (by simp) _⟩
      · exact ⟨hf.text s hv, hsep⟩
  | bare t =>
      simp only [hv, List.mem_singleton] at hp
      subst hp
      have ht := (hf.bare t hv).1
      refine ⟨hf.key, ?_, hkey.not_gap (by simp) _⟩
      rw [List.mem_cons, List.mem_append, not_or, not_or]
      exact ⟨by decide, ht, hsep.1⟩

/-- A field that does not look like the key is passed over. -/
def Field.Other (key : List Char) (f : Field) : Prop := f.key ≠ key ∧ f.value ≠ .text key

theorem words_ne (h : f.Other key) (sep : List Char) : ∀ p ∈ f.words sep, p.1 ≠ key := by
  obtain ⟨hkey, hvalue⟩ := h
  unfold Field.words
  intro p hp
  cases hv : f.value with
  | text s =>
      simp only [hv, List.mem_cons, List.not_mem_nil, or_false] at hp
      rcases hp with rfl | rfl
      · exact hkey
      · rintro rfl
        exact hvalue hv
  | bare t =>
      simp only [hv, List.mem_singleton] at hp
      subst hp
      exact hkey

/-- The words of fields that are passed over. -/
theorem words_past (hkey : Key key) (fs : List Field) (hplain : ∀ f ∈ before, f.Plain)
    (hother : ∀ f ∈ before, f.Other key) :
    ∃ ps, wordsOf (before ++ fs) = ps ++ wordsOf fs ∧ Woven key ps ∧ ∀ p ∈ ps, p.1 ≠ key := by
  induction before with
  | nil => exact ⟨[], rfl, by simp [Woven], by simp⟩
  | cons f before ih =>
      obtain ⟨ps, hps, hwoven, hne⟩ := ih (fun g hg => hplain g (List.mem_cons_of_mem f hg))
        (fun g hg => hother g (List.mem_cons_of_mem f hg))
      refine ⟨f.words (sepOf (before ++ fs)) ++ ps, ?_, ?_, ?_⟩
      · rw [List.cons_append, wordsOf_cons, hps, List.append_assoc]
      · intro p hp
        rcases List.mem_append.mp hp with hp | hp
        · exact woven_words hkey (hplain f List.mem_cons_self) _ p hp
        · exact hwoven p hp
      · intro p hp
        rcases List.mem_append.mp hp with hp | hp
        · exact words_ne (hother f List.mem_cons_self) _ p hp
        · exact hne p hp

theorem weave_field (key : List Char) (v : FieldValue) (fs : List Field) :
    weave (wordsOf (⟨key, v⟩ :: fs)) = quoted key ++ ':' :: valueOn v fs := by
  rw [wordsOf_cons, weave_append]
  cases v with
  | text s =>
      cases fs <;> simp [Field.words, weave, valueOn, FieldValue.render, sepOf, wordsOf]
  | bare t =>
      cases fs <;> simp [Field.words, weave, valueOn, FieldValue.render, sepOf, wordsOf]

theorem needle_fits (hkey : Key key) : ¬ (quoted key).length ≥ 128 := by
  have hshort := hkey.short
  have hlen : (quoted key).length = key.length + 2 := by simp [quoted]
  omega

/-- Whatever follows the first place of the key and a colon is the value. -/
theorem jsonLocate_words {ps : List (List Char × List Char)} (hkey : Key key)
    (hps : Woven key ps) (hne : ∀ p ∈ ps, p.1 ≠ key) (t : List Char) :
    jsonLocate ('\x7b' :: (weave ps ++ (quoted key ++ ':' :: t))) key = some (skipWs t) := by
  have hfound : strstr (quoted key) ('\x7b' :: (weave ps ++ (quoted key ++ ':' :: t))) =
      some (quoted key ++ ':' :: t) := by
    rw [← strstr_word hkey.quote hps hne]
    exact strstr_skip (s := ['\x7b']) (by decide) _
  rw [jsonLocate, if_neg (needle_fits hkey), hfound]
  simp only [List.drop_left]
  rfl

theorem skipWs_valueOn (hplain : Field.Plain ⟨key, v⟩) (fs : List Field) :
    skipWs (valueOn v fs) = valueOn v fs := by
  cases v with
  | text s => cases fs <;> rfl
  | bare t =>
      cases t with
      | nil => cases fs <;> rfl
      | cons c t =>
          have hc := (hplain.bare _ rfl).2 c rfl
          cases fs <;> exact List.dropWhile_cons_of_neg (by simp [hc])

/-- The key of a field is found if no earlier field looks like it. -/
theorem jsonLocate_field (hkey : Key key) (hplain : ∀ f ∈ before, f.Plain)
    (hself : Field.Plain ⟨key, v⟩) (hother : ∀ f ∈ before, f.Other key)
    (after : List Field) :
    jsonLocate (objectOf (before ++ ⟨key, v⟩ :: after)) key = some (valueOn v after) := by
  obtain ⟨ps, hps, hwoven, hne⟩ := words_past hkey (⟨key, v⟩ :: after) hplain hother
  rw [objectOf, hps, weave_append, weave_field, jsonLocate_words hkey hwoven hne,
    skipWs_valueOn hself]

/-- A string value that equals the key hides every field behind it. -/
theorem jsonLocate_hidden {k : List Char} (hkey : Key key) (hplain : ∀ f ∈ before, f.Plain)
    (hself : '"' ∉ k) (hother : ∀ f ∈ before, f.Other key) (hk : k ≠ key)
    (after : List Field) :
    jsonLocate (objectOf (before ++ ⟨k, .text key⟩ :: after)) key = none := by
  obtain ⟨ps, hps, hwoven, hne⟩ := words_past hkey (⟨k, .text key⟩ :: after) hplain hother
  have hsplit : objectOf (before ++ ⟨k, .text key⟩ :: after) =
      '\x7b' :: (weave (ps ++ [(k, [':'])]) ++
        (quoted key ++ (sepOf after ++ weave (wordsOf after)))) := by
    rw [objectOf, hps, wordsOf_cons]
    simp [weave_append, weave, Field.words]
  have hfound : strstr (quoted key) (objectOf (before ++ ⟨k, .text key⟩ :: after)) =
      some (quoted key ++ (sepOf after ++ weave (wordsOf after))) := by
    rw [hsplit]
    refine (strstr_skip (s := ['\x7b']) (by decide) _).trans (strstr_word hkey.quote ?_ ?_ _)
    · intro p hp
      rcases List.mem_append.mp hp with hp | hp
      · exact hwoven p hp
      · obtain rfl := List.mem_singleton.mp hp
        exact ⟨hself, by simp, hkey.not_gap (by simp) _⟩
    · intro p hp
      rcases List.mem_append.mp hp with hp | hp
      · exact hne p hp
      · obtain rfl := List.mem_singleton.mp hp
        exact hk
  rw [jsonLocate, if_neg (needle_fits hkey), hfound]
  simp only [List.drop_left]
  rcases sepOf_cases after with hsep | hsep
  · rw [hsep]
    rfl
  · rw [hsep]
    rfl

/-- A string without quotes and backslashes is copied if it fits. -/
theorem copyField_plain {cap : ℕ} {s : List Char} (hs : ∀ c ∈ s, c ≠ '"' ∧ c ≠ '\\')
    (out rest : List Char) (hout : out.length < cap) :
    stored (copyField cap out (s ++ '"' :: rest)) =
      if out.length + s.length < cap then some (out ++ s) else none := by
  induction s generalizing out with
  | nil => simp [copyField, stored, hout]
  | cons c s ih =>
      obtain ⟨hquote, hback⟩ := hs c List.mem_cons_self
      have hstep : copyField cap out (c :: (s ++ '"' :: rest)) =
          if out.length + 1 ≥ cap then (false, out)
          else copyField cap (out ++ [c]) (s ++ '"' :: rest) := by
        rw [copyField]
        · exact hquote
        · intro d p hc
          exact absurd hc hback
      rw [List.cons_append, hstep, List.length_cons]
      split_ifs with hfull hfit hfit
      · omega
      · rfl
      · rw [ih (fun d hd => hs d (List.mem_cons_of_mem c hd)) _ (by simp; omega), if_pos]
        · simp
        · simp
          omega
      · rw [ih (fun d hd => hs d (List.mem_cons_of_mem c hd)) _ (by simp; omega), if_neg]
        simp
        omega

theorem valueOn_text (s : List Char) (fs : List Field) :
    ∃ rest, valueOn (.text s) fs = '"' :: (s ++ '"' :: rest) := by
  cases fs with
  | nil => exact ⟨['\x7d'], by simp [valueOn, FieldValue.render, quoted]⟩
  | cons f fs => exact ⟨_, by simp [valueOn, FieldValue.render, quoted]; rfl⟩

/-- A string field is read as it is or not at all. -/
theorem field_read {s : List Char} {cap : ℕ} (hkey : Key key) (hcap : 0 < cap)
    (hs : ∀ c ∈ s, c ≠ '"' ∧ c ≠ '\\') (hplain : ∀ f ∈ before, f.Plain)
    (hfirst : ∀ f ∈ before, f.key ≠ key) (after : List Field) :
    let json := objectOf (before ++ ⟨key, .text s⟩ :: after)
    let found := s.length < cap ∧ ∀ f ∈ before, f.value ≠ .text key
    found ∧ jsonFieldStr json key cap = some s ∨ ¬ found ∧ jsonFieldStr json key cap = none := by
  intro json found
  cases hfind : before.find? fun f => f.value = .text key with
  | none =>
      have hother : ∀ f ∈ before, f.value ≠ .text key := by
        intro f hf
        simpa using List.find?_eq_none.mp hfind f hf
      have hself : Field.Plain ⟨key, .text s⟩ := plain_text hkey.quote fun h => (hs _ h).1 rfl
      have hlocate := jsonLocate_field hkey hplain hself
        (fun f hf => ⟨hfirst f hf, hother f hf⟩) after
      obtain ⟨rest, hrest⟩ := valueOn_text s after
      have hread : jsonFieldStr json key cap = if s.length < cap then some s else none := by
        rw [jsonFieldStr, fieldBuffer, hlocate, hrest]
        simp only [copyField_plain hs [] rest hcap, List.length_nil, zero_add, List.nil_append]
      by_cases hfit : s.length < cap
      · exact Or.inl ⟨⟨hfit, hother⟩, hread.trans (if_pos hfit)⟩
      · exact Or.inr ⟨fun h => hfit h.1, hread.trans (if_neg hfit)⟩
  | some f =>
      obtain ⟨hf, front, back, rfl, hfront⟩ := List.find?_eq_some_iff_append.mp hfind
      obtain ⟨k, v⟩ := f
      obtain rfl : v = .text key := by simpa using hf
      have hfront' : ∀ g ∈ front, g.Other key := by
        intro g hg
        exact ⟨hfirst g (List.mem_append_left _ hg), by simpa using hfront g hg⟩
      have hmem : (⟨k, .text key⟩ : Field) ∈ front ++ ⟨k, .text key⟩ :: back := by simp
      refine Or.inr ⟨fun h => h.2 _ hmem rfl, ?_⟩
      have hjson : json = objectOf (front ++ ⟨k, .text key⟩ :: (back ++ ⟨key, .text s⟩ :: after)) :=
        by simp [json]
      rw [hjson, jsonFieldStr, fieldBuffer,
        jsonLocate_hidden hkey (fun g hg => hplain g (List.mem_append_left _ hg))
          (hplain _ hmem).key hfront' (hfirst _ hmem)]
      rfl

theorem field_found {s : List Char} {cap : ℕ} (hkey : Key key) (hcap : 0 < cap)
    (hs : ∀ c ∈ s, c ≠ '"' ∧ c ≠ '\\') (hplain : ∀ f ∈ before, f.Plain)
    (hfirst : ∀ f ∈ before, f.key ≠ key) (after : List Field)
    (h : s.length < cap ∧ ∀ f ∈ before, f.value ≠ .text key) :
    jsonFieldStr (objectOf (before ++ ⟨key, .text s⟩ :: after)) key cap = some s := by
  rcases field_read hkey hcap hs hplain hfirst after with ⟨-, hread⟩ | ⟨hlost, -⟩
  · exact hread
  · exact absurd h hlost

/-- A key of letters. -/
theorem key_letters (h : key ≠ [] ∧ key.length < 126 ∧ key.all Char.isAlpha = true) : Key key := by
  obtain ⟨hne, hlen, hall⟩ := h
  have hletter : ∀ c ∈ key, c.isAlpha = true := List.all_eq_true.mp hall
  have hother : ∀ c ∈ key, c ≠ '"' ∧ c ≠ ':' ∧ c ≠ ',' ∧ c ≠ '\x7d' := by
    intro c hc
    refine ⟨?_, ?_, ?_, ?_⟩
    · rintro rfl
      exact absurd (hletter _ hc) (by decide)
    · rintro rfl
      exact absurd (hletter _ hc) (by decide)
    · rintro rfl
      exact absurd (hletter _ hc) (by decide)
    · rintro rfl
      exact absurd (hletter _ hc) (by decide)
  exact ⟨hlen, fun h => (hother _ h).1 rfl, fun c hc => (hother c (List.mem_of_mem_head? hc)).2,
    hne⟩

example : jsonFieldStr
    (objectOf [⟨"kind".toList, .text "id".toList⟩, ⟨"id".toList, .text ['x']⟩]) "id".toList 8 =
      none := by decide

theorem hexMark_ten (s : List Char) : hexMark .ten s = ([], s) := if_neg (by simp)

/-- A printed integer is read back up to the first other character. -/
theorem scanInteger_decText (x : ℤ) {c : Char} (hc : c.isDigit = false) (rest : List Char) :
    scanInteger .ten (decText x ++ c :: rest) = some (x, c :: rest) := by
  have hds : ∀ d ∈ Nat.toDigits 10 x.natAbs, d.isDigit = true := fun d hd => isDigit_toDigits hd
  have htake : (Nat.toDigits 10 x.natAbs ++ c :: rest).takeWhile Char.isDigit =
      Nat.toDigits 10 x.natAbs := by
    rw [List.takeWhile_append_of_pos hds, List.takeWhile_cons_of_neg (by simp [hc]),
      List.append_nil]
  have hdrop : (Nat.toDigits 10 x.natAbs ++ c :: rest).dropWhile Char.isDigit = c :: rest := by
    rw [List.dropWhile_append_of_pos hds, List.dropWhile_cons_of_neg (by simp [hc])]
  have hvalue : digitsValue 10 (Nat.toDigits 10 x.natAbs) = x.natAbs := by
    rw [digitsValue_eq fun c => isDigit_toDigits, Nat.ofDigitChars_ten_toDigits]
  have hsign : signItem ((decText x ++ c :: rest).dropWhile isSpace) =
      (if x < 0 then ['-'] else [], Nat.toDigits 10 x.natAbs ++ c :: rest) := by
    unfold decText
    split_ifs with hneg
    · rfl
    · obtain ⟨d, ds, hcons⟩ :=
        List.exists_cons_of_ne_nil (Nat.toDigits_ne_nil (b := 10) (n := x.natAbs))
      have hd : d.isDigit = true := hds d (by rw [hcons]; exact List.mem_cons_self)
      have hspace : isSpace d = false := @digit_solid .ten d hd
      rw [hcons, List.cons_append, List.dropWhile_cons_of_neg (by simp [hspace]), signItem_digit hd]
  unfold scanInteger
  rw [hsign]
  simp only [hexMark_ten, Base.digit, Base.radix, htake, hdrop, hvalue, if_neg Nat.toDigits_ne_nil]
  split_ifs with hneg hminus hminus
  · rw [Int.ofNat_natAbs_of_nonpos hneg.le, neg_neg]
  · exact absurd rfl hminus
  · cases hminus
  · rw [Int.natAbs_of_nonneg (by omega)]

theorem valueOn_bare (t : List Char) (fs : List Field) :
    ∃ c rest, valueOn (.bare t) fs = t ++ c :: rest ∧ c.isDigit = false := by
  cases fs with
  | nil => exact ⟨'\x7d', [], rfl, rfl⟩
  | cons f fs => exact ⟨',', _, rfl, rfl⟩

theorem isWs_digit {c : Char} (h : c.isDigit = true) : isWs c = false := by
  rw [← Bool.not_eq_true]
  intro hws
  simp only [isWs, Bool.or_eq_true, decide_eq_true_eq] at hws
  rcases hws with ((rfl | rfl) | rfl) | rfl <;> cases h

theorem plain_decText {k : List Char} (hk : '"' ∉ k) (x : ℤ) :
    Field.Plain ⟨k, .bare (decText x)⟩ := by
  refine plain_bare hk (fun h => ?_) fun c hc => ?_
  · rcases mem_decText h with h | h
    · cases h
    · cases h
  · rcases mem_decText (List.mem_of_mem_head? hc) with rfl | hdigit
    · rfl
    · exact isWs_digit hdigit

/-- A printed integer is read back from its field. -/
theorem jsonFieldInt_field (x : ℤ) (hkey : Key key) (hplain : ∀ f ∈ before, f.Plain)
    (hother : ∀ f ∈ before, f.Other key) (after : List Field) :
    jsonFieldInt (objectOf (before ++ ⟨key, .bare (decText x)⟩ :: after)) key =
      some (HopTable.longClamp x) := by
  obtain ⟨c, rest, hvalue, hc⟩ := valueOn_bare (decText x) after
  rw [jsonFieldInt, jsonLocate_field hkey hplain (plain_decText hkey.quote x) hother, hvalue,
    Option.bind_some, scanInteger_decText x hc, Option.map_some]

end Objects

section Escapes
variable {cap : ℕ} {p s r : List Char}

/-- The string that is copied if there is room for it. -/
def copied : List Char → Option (List Char)
  | [] => none
  | '"' :: _ => some []
  | '\\' :: c :: p => (copied p).map (unescape c :: ·)
  | c :: p => (copied p).map (c :: ·)

theorem copyField_eq {out : List Char} (hout : out.length < cap) (p : List Char) :
    stored (copyField cap out p) =
      (copied p).bind fun s => if out.length + s.length < cap then some (out ++ s) else none := by
  fun_induction copyField cap out p with
  | case1 => rfl
  | case2 out p => simp [copied, stored, hout]
  | case3 out c p hfull =>
      rw [copied]
      cases copied p with
      | none => rfl
      | some s =>
          simp [stored]
          omega
  | case4 out c p hroom ih =>
      rw [copied, ih (by simp; omega)]
      cases copied p with
      | none => rfl
      | some s => simp [Nat.add_assoc, Nat.add_comm 1]
  | case5 out c p hquote hback hfull =>
      rw [copied]
      · cases copied p with
        | none => rfl
        | some s =>
            simp [stored]
            omega
      · exact hquote
      · exact hback
  | case6 out c p hquote hback hroom ih =>
      rw [copied, ih (by simp; omega)]
      · cases copied p with
        | none => rfl
        | some s => simp [Nat.add_assoc, Nat.add_comm 1]
      · exact hquote
      · exact hback

/-- There is an escape in front of the closing quote that the copying loop does not know. -/
def strange : List Char → Bool
  | [] => false
  | '"' :: _ => false
  | '\\' :: c :: p => c = 'b' || c = 'f' || c = 'u' || strange p
  | _ :: p => strange p

theorem clean_hexDigit {c : Char} (h : hexDigit c ≠ none) : CleanChar c := by
  refine ⟨?_, ?_, ?_⟩
  · by_contra hlow
    have hval : c.toNat = c.val.toNat := rfl
    have hdigit : c.isDigit = false := by
      simp [Char.isDigit, UInt32.le_iff_toNat_le]
      omega
    have hlower : ¬ ('a' ≤ c ∧ c ≤ 'f') := by
      rintro ⟨ha, -⟩
      have hle := UInt32.le_iff_toNat_le.mp ha
      simp at hle
      omega
    have hupper : ¬ ('A' ≤ c ∧ c ≤ 'F') := by
      rintro ⟨ha, -⟩
      have hle := UInt32.le_iff_toNat_le.mp ha
      simp at hle
      omega
    exact h (by rw [hexDigit, hdigit, if_neg (by simp), if_neg hlower, if_neg hupper])
  · rintro rfl
    exact h rfl
  · rintro rfl
    exact h rfl

theorem parseChars_cons {c : Char} (hc : CleanChar c) (cs : List Char) :
    parseChars (c :: cs) = (parseChars cs).map fun q => (c :: q.1, q.2) := by
  rw [parseChars, parseCharsFrom, if_neg hc.2.1, if_neg hc.2.2, if_neg (not_lt.mpr hc.1)]
  rfl

theorem hexChar_clean {x y z w e : Char} (h : hexChar x y z w = some e) :
    CleanChar x ∧ CleanChar y ∧ CleanChar z ∧ CleanChar w := by
  unfold hexChar at h
  refine ⟨clean_hexDigit ?_, clean_hexDigit ?_, clean_hexDigit ?_, clean_hexDigit ?_⟩
  · intro hx
    simp [hx] at h
  · intro hy
    cases hexDigit x <;> simp [hy] at h
  · intro hz
    cases hexDigit x <;> cases hexDigit y <;> simp [hz] at h
  · intro hw
    cases hexDigit x <;> cases hexDigit y <;> cases hexDigit z <;> simp [hw] at h

theorem hex_four {q : List Char × List Char} (h : parseCharsFrom (.hex []) p = some q) :
    ∃ x y z w p' e q', p = x :: y :: z :: w :: p' ∧ hexChar x y z w = some e ∧
      parseChars p' = some q' ∧ q = (e :: q'.1, q'.2) := by
  rcases p with _ | ⟨x, _ | ⟨y, _ | ⟨z, _ | ⟨w, p⟩⟩⟩⟩
  · cases h
  · cases h
  · cases h
  · cases h
  · obtain ⟨e, he, h⟩ := Option.bind_eq_some_iff.mp h
    obtain ⟨q', hq', rfl⟩ := Option.map_eq_some_iff.mp h
    exact ⟨x, y, z, w, p, e, q', rfl, he, hq', rfl⟩

/-- The digits of an escape are read as four characters more if nothing announces them. -/
theorem parse_hex {q : List Char × List Char} (h : parseCharsFrom (.hex []) p = some q) :
    ∃ e s q', parseChars p = some (s, q.2) ∧ q.1 = e :: q' ∧ s.length = q'.length + 4 := by
  obtain ⟨x, y, z, w, p', e, q', rfl, he, hq', rfl⟩ := hex_four h
  obtain ⟨hx, hy, hz, hw⟩ := hexChar_clean he
  refine ⟨e, x :: y :: z :: w :: q'.1, q'.1, ?_, rfl, rfl⟩
  rw [parseChars_cons hx, parseChars_cons hy, parseChars_cons hz, parseChars_cons hw, hq']
  rfl

theorem unescape_eq_iff {c e : Char} (h : escapeChar c = some e) :
    unescape c = e ↔ c ≠ 'b' ∧ c ≠ 'f' := by
  unfold escapeChar at h
  split_ifs at h with hself hb hf hn hr ht
  · obtain rfl := Option.some.inj h
    rcases hself with rfl | rfl | rfl
    · decide
    · decide
    · decide
  · obtain rfl := Option.some.inj h
    rw [hb]
    decide
  · obtain rfl := Option.some.inj h
    rw [hf]
    decide
  · obtain rfl := Option.some.inj h
    rw [hn]
    decide
  · obtain rfl := Option.some.inj h
    rw [hr]
    decide
  · obtain rfl := Option.some.inj h
    rw [ht]
    decide

/-- A string that JSON accepts is copied, and unchanged if every escape in it is known. -/
theorem copied_of_parse (h : parseChars p = some (s, r)) :
    ∃ t, copied p = some t ∧ s.length ≤ t.length ∧ (t = s ↔ strange p = false) := by
  fun_induction copied p generalizing s r with
  | case1 => cases h
  | case2 rest =>
      obtain ⟨rfl, -⟩ := Prod.mk.inj (Option.some.inj h)
      exact ⟨[], rfl, le_rfl, iff_of_true rfl rfl⟩
  | case3 c p ih =>
      have hescape : parseCharsFrom .escape (c :: p) = some (s, r) := h
      rw [parseCharsFrom] at hescape
      split_ifs at hescape with hu
      · obtain ⟨e, s', q', hs', hq, hlen⟩ := parse_hex hescape
        obtain rfl : s = e :: q' := hq
        obtain ⟨t, ht, hle, -⟩ := ih hs'
        refine ⟨unescape c :: t, by rw [ht]; rfl, ?_, iff_of_false ?_ ?_⟩
        · simp
          omega
        · intro heq
          have hlen' : t.length = q'.length := by rw [(List.cons.inj heq).2]
          omega
        · simp [strange, hu]
      · obtain ⟨e, he, hmap⟩ := Option.bind_eq_some_iff.mp hescape
        obtain ⟨q, hq, heq⟩ := Option.map_eq_some_iff.mp hmap
        obtain ⟨rfl, rfl⟩ := Prod.mk.inj heq
        obtain ⟨t, ht, hle, hiff⟩ := ih hq
        refine ⟨unescape c :: t, by rw [ht]; rfl, Nat.succ_le_succ hle, ?_⟩
        rw [List.cons.injEq, unescape_eq_iff he, hiff]
        simp [strange, hu, and_assoc]
  | case4 c p hquote hback ih =>
      have hc : c ≠ '\\' := by
        rintro rfl
        cases p with
        | nil => cases h
        | cons d p => exact hback d p rfl rfl
      have hstrange : strange (c :: p) = strange p := by
        rw [strange]
        · exact hquote
        · exact hback
      have hplain : parseCharsFrom .plain (c :: p) = some (s, r) := h
      rw [parseCharsFrom, if_neg hquote, if_neg hc] at hplain
      split_ifs at hplain
      obtain ⟨q, hq, heq⟩ := Option.map_eq_some_iff.mp hplain
      obtain ⟨rfl, rfl⟩ := Prod.mk.inj heq
      obtain ⟨t, ht, hle, hiff⟩ := ih hq
      refine ⟨c :: t, by rw [ht]; rfl, Nat.succ_le_succ hle, ?_⟩
      rw [List.cons.injEq, hstrange, hiff]
      simp

/-- A string value is read as JSON reads it exactly if it fits and has none of the escapes
that the copying loop does not decode. -/
theorem jsonFieldStr_iff {json key : List Char} (hcap : 0 < cap)
    (hlocate : jsonLocate json key = some ('"' :: p)) (hparse : parseChars p = some (s, r)) :
    jsonFieldStr json key cap = some s ↔ s.length < cap ∧ strange p = false := by
  obtain ⟨t, ht, hle, hiff⟩ := copied_of_parse hparse
  rw [jsonFieldStr, fieldBuffer, hlocate]
  simp only [copyField_eq (show [].length < cap from hcap), ht, Option.bind_some,
    List.length_nil, zero_add, List.nil_append]
  split_ifs with hfit
  · rw [Option.some_inj, hiff]
    exact ⟨fun h => ⟨by omega, h⟩, fun h => h.2⟩
  · refine iff_of_false (by simp) ?_
    rintro ⟨hlen, hstrange⟩
    rw [hiff.mpr hstrange] at hfit
    exact hfit hlen

theorem jsonFieldStr_iff_slash : jsonFieldStr "\x7b\"id\":\"a\\/\"\x7d".toList "id".toList 8 =
      some ['a', '/'] ↔ ['a', '/'].length < 8 ∧ strange "a\\/\"\x7d".toList = false :=
  jsonFieldStr_iff (r := ['\x7d']) (by decide) (by decide) (by decide)

end Escapes

end Iputils.BridgeFields
