import Iputils.ScanText

/-!
# Words in quotes

A text in which words stand in quotes, with other text between them. A search for a word
and its quotes finds the first place where the word stands, unless the text between two
words looks like it.
-/
set_option autoImplicit false

namespace Iputils.QuotedWords
open ScanText

def quoted (s : List Char) : List Char := '"' :: (s ++ ['"'])

/-- Words, each with the text behind it. -/
def weave : List (List Char × List Char) → List Char
  | [] => []
  | (s, gap) :: ps => quoted s ++ (gap ++ weave ps)

theorem weave_append (ps qs : List (List Char × List Char)) :
    weave (ps ++ qs) = weave ps ++ weave qs := by
  induction ps with
  | nil => rfl
  | cons p ps ih => rw [List.cons_append, weave, weave, ih, List.append_assoc, List.append_assoc]

section Search
variable {key s t gap : List Char} {ps : List (List Char × List Char)}

/-- Without a quote in front nothing is found. -/
theorem strstr_skip (hs : '"' ∉ s) (t : List Char) :
    strstr (quoted key) (s ++ t) = strstr (quoted key) t := by
  induction s with
  | nil => rfl
  | cons c s ih =>
      have hc : ¬ quoted key <+: c :: (s ++ t) := by
        intro h
        exact hs (List.mem_cons.mpr (Or.inl (List.cons_prefix_cons.mp h).1))
      rw [List.cons_append, strstr, if_neg hc]
      exact ih fun h => hs (List.mem_cons_of_mem c h)

/-- A text that a quote ends is the word, or it is not. -/
theorem prefix_quote_iff (hkey : '"' ∉ key) (hs : '"' ∉ s) :
    key ++ ['"'] <+: s ++ '"' :: t ↔ s = key := by
  induction key generalizing s with
  | nil =>
      cases s with
      | nil => simp
      | cons c s =>
          have hc : c ≠ '"' := fun h => hs (h ▸ List.mem_cons_self)
          simp [Ne.symm hc]
  | cons k key ih =>
      have hk : k ≠ '"' := fun h => hkey (h ▸ List.mem_cons_self)
      cases s with
      | nil => simp [hk]
      | cons c s =>
          have hrest := @ih s (fun h => hkey (List.mem_cons_of_mem k h))
            (fun h => hs (List.mem_cons_of_mem c h))
          rw [List.cons_append, List.cons_append, List.cons_prefix_cons, hrest, List.cons.injEq,
            eq_comm]

/-- A text that is at its end or goes on with a quote. -/
def AtQuote (t : List Char) : Prop := ∀ c ∈ t.head?, c = '"'

theorem atQuote_nil : AtQuote [] := by simp [AtQuote]

theorem atQuote_quoted (s t : List Char) : AtQuote (quoted s ++ t) := by simp [AtQuote, quoted]

theorem atQuote_weave (ps : List (List Char × List Char)) (ht : AtQuote t) :
    AtQuote (weave ps ++ t) := by
  cases ps with
  | nil => exact ht
  | cons p ps =>
      rw [weave, List.append_assoc]
      exact atQuote_quoted p.1 _

/-- The search goes past another word and the text behind it. -/
theorem strstr_past (hkey : '"' ∉ key) (hs : '"' ∉ s) (hne : s ≠ key) (hgap : '"' ∉ gap)
    (hother : gap ≠ key) (ht : AtQuote t) :
    strstr (quoted key) (quoted s ++ (gap ++ t)) = strstr (quoted key) t := by
  have hword : ¬ quoted key <+: '"' :: (s ++ '"' :: (gap ++ t)) := by
    intro h
    exact hne ((prefix_quote_iff hkey hs).mp (List.cons_prefix_cons.mp h).2)
  have hclose : ¬ quoted key <+: '"' :: (gap ++ t) := by
    intro h
    have hrest := (List.cons_prefix_cons.mp h).2
    cases t with
    | nil =>
        rw [List.append_nil] at hrest
        exact hgap (hrest.subset (by simp))
    | cons c t =>
        obtain rfl := ht c rfl
        exact hother ((prefix_quote_iff hkey hgap).mp hrest)
  have hsplit : quoted s ++ (gap ++ t) = '"' :: (s ++ '"' :: (gap ++ t)) := by
    simp [quoted]
  rw [hsplit, strstr, if_neg hword, strstr_skip hs, strstr, if_neg hclose, strstr_skip hgap]

/-- Words without quotes inside, with no quotes between them. -/
def Woven (key : List Char) (ps : List (List Char × List Char)) : Prop :=
  ∀ p ∈ ps, '"' ∉ p.1 ∧ '"' ∉ p.2 ∧ p.2 ≠ key

theorem strstr_weave (hkey : '"' ∉ key) (hps : Woven key ps) (hnone : ∀ p ∈ ps, p.1 ≠ key)
    (ht : AtQuote t) : strstr (quoted key) (weave ps ++ t) = strstr (quoted key) t := by
  induction ps with
  | nil => rfl
  | cons p ps ih =>
      obtain ⟨hs, hgap, hother⟩ := hps p List.mem_cons_self
      rw [weave, List.append_assoc, List.append_assoc,
        strstr_past hkey hs (hnone p List.mem_cons_self) hgap hother (atQuote_weave ps ht)]
      exact ih (fun q hq => hps q (List.mem_cons_of_mem p hq))
        (fun q hq => hnone q (List.mem_cons_of_mem p hq))

/-- The first place of a word is found. -/
theorem strstr_word (hkey : '"' ∉ key) (hps : Woven key ps) (hnone : ∀ p ∈ ps, p.1 ≠ key)
    (t : List Char) :
    strstr (quoted key) (weave ps ++ (quoted key ++ t)) = some (quoted key ++ t) := by
  rw [strstr_weave hkey hps hnone (atQuote_quoted key t)]
  exact if_pos (List.prefix_append _ _)

/-- A word that stands nowhere is not found. -/
theorem strstr_absent (hkey : '"' ∉ key) (hps : Woven key ps) (hnone : ∀ p ∈ ps, p.1 ≠ key) :
    strstr (quoted key) (weave ps) = none := by
  have h := strstr_weave hkey hps hnone atQuote_nil
  rw [List.append_nil] at h
  rw [h]
  rfl

end Search

end Iputils.QuotedWords
