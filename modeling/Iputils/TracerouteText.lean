import Iputils.HopLine
import Iputils.PrintfText

/-!
# The output of traceroute

A hop line is the number of the hop and the results of its probes: a star, or the
time of an answer, with the name and the address of the responder before it unless the
answer before came from the same one. Further responders may stand on indented lines
of their own.
-/
set_option autoImplicit false

namespace Iputils.TracerouteText
open ScanText HopLine PrintfText

/-- Who has answered a probe. The name is whatever reverse DNS has to say. -/
structure Responder where
  name : List Char
  ip : List Char
  name_blank : ' ' ∉ name
  name_line : '\n' ∉ name
  name_length : name.length ≤ 255
  ip_ne_nil : ip ≠ []
  ip_chars : AddressText ip
  ip_length : ip.length ≤ 45
deriving DecidableEq

/-- An answer, with the time in microseconds. -/
structure Answer where
  responder : Responder
  time : ℕ
deriving DecidableEq

abbrev Probe := Option Answer

def Responder.text (r : Responder) : List Char := r.name ++ ' ' :: '(' :: (r.ip ++ [')'])

/-- `%.3f` of the time in milliseconds. -/
def msText (time : ℕ) : List Char :=
  Nat.toDigits 10 (time / 1000) ++ '.' :: padText 3 ((time % 1000 : ℕ) : ℤ)

def timeText (time : ℕ) : List Char := ' ' :: ' ' :: (msText time ++ " ms".toList)

/-- The result of one probe, with the responder of the last answer before it. -/
def probeText (prev : Option Responder) : Probe → List Char
  | none => " *".toList
  | some a =>
      if prev = some a.responder then timeText a.time
      else ' ' :: (a.responder.text ++ timeText a.time)

def probesText : Option Responder → List Probe → List Char
  | _, [] => []
  | prev, p :: ps => probeText prev p ++ probesText ((p.map Answer.responder).or prev) ps

/-- `%2u` and a blank. -/
def numberText (n : ℕ) : List Char :=
  List.replicate (2 - (Nat.toDigits 10 n).length) ' ' ++ Nat.toDigits 10 n ++ [' ']

def hopLine (n : ℕ) (probes : List Probe) : List Char := numberText n ++ probesText none probes

/-- A responder without a name of its own. -/
def gateway : Responder where
  name := "10.0.0.1".toList
  ip := "10.0.0.1".toList
  name_blank := by decide +kernel
  name_line := by decide +kernel
  name_length := by decide +kernel
  ip_ne_nil := by decide +kernel
  ip_chars := by decide +kernel
  ip_length := by decide +kernel

section Numbers

/-- The line behind the number of the hop. -/
theorem behindNumber_number (n : ℕ) (rest : List Char) :
    behindNumber (numberText n ++ rest) = rest.dropWhile isBlank := by
  have hdigit : ∀ c ∈ Nat.toDigits 10 n, !isBlank c := by
    intro c hc
    have := isDigit_ne (d := ' ') (isDigit_toDigits hc) (by decide)
    simpa [isBlank] using this
  obtain ⟨d, ds, hds⟩ : ∃ d ds, Nat.toDigits 10 n = d :: ds :=
    List.exists_cons_of_ne_nil Nat.toDigits_ne_nil
  unfold behindNumber numberText
  rw [List.append_assoc, List.append_assoc, List.dropWhile_append_of_pos]
  · rw [hds, List.cons_append, List.dropWhile_cons_of_neg, ← List.cons_append, ← hds,
      List.dropWhile_append_of_pos hdigit]
    · rfl
    · have := hdigit d (by rw [hds]; exact List.mem_cons_self)
      simpa using this
  · intro c hc
    rw [List.eq_of_mem_replicate hc]
    rfl

end Numbers

section Times

/-- A decimal fraction is read as a whole, if a blank follows. -/
theorem floatItem_decimal {whole fraction rest : List Char} (hne : whole ≠ [])
    (hwhole : ∀ c ∈ whole, c.isDigit) (hfraction : ∀ c ∈ fraction, c.isDigit) :
    floatItem (whole ++ '.' :: (fraction ++ ' ' :: rest)) =
      some (whole ++ '.' :: fraction, ' ' :: rest) := by
  have hnumber : numberItem Char.isDigit 'e' (whole ++ '.' :: (fraction ++ ' ' :: rest)) =
      some (whole ++ '.' :: fraction, ' ' :: rest) := by
    have h₁ := munch_iff.mp (⟨rfl, hwhole, by simp⟩ : Munch Char.isDigit
      (whole ++ '.' :: (fraction ++ ' ' :: rest)) whole ('.' :: (fraction ++ ' ' :: rest)))
    have h₂ := munch_iff.mp (⟨rfl, hfraction, by simp⟩ : Munch Char.isDigit
      (fraction ++ ' ' :: rest) fraction (' ' :: rest))
    unfold numberItem
    dsimp only
    rw [← h₁.1, ← h₁.2]
    have hitem : fractionItem Char.isDigit ('.' :: (fraction ++ ' ' :: rest)) =
        ('.' :: fraction, ' ' :: rest) := by
      simp only [fractionItem, if_true]
      rw [← h₂.1, ← h₂.2]
    have hexponent : exponentItem 'e' (' ' :: rest) = some ([], ' ' :: rest) := by
      have hblank : ¬ (' ' : Char).toLower = 'e' := by decide
      simp only [exponentItem, if_neg hblank]
    rw [hitem, if_neg fun h => hne h.1, hexponent]
    simp [Item.after]
  obtain ⟨d, ds, rfl⟩ := List.exists_cons_of_ne_nil hne
  rw [← hnumber, List.cons_append]
  refine floatItem_digit (hwhole d List.mem_cons_self) fun c hc => ?_
  cases ds with
  | nil =>
      obtain rfl := Option.some.inj hc
      decide
  | cons e ds =>
      obtain rfl := Option.some.inj hc
      have he := hwhole e (List.mem_cons_of_mem d List.mem_cons_self)
      rw [toLower_digit he]
      exact isDigit_ne he (by decide)

theorem isDigit_padText {w n : ℕ} {c : Char} (h : c ∈ padText w (n : ℤ)) : c.isDigit := by
  unfold padText at h
  dsimp only at h
  rw [if_neg (by omega)] at h
  obtain h | h := List.mem_append.mp h
  · rw [List.eq_of_mem_replicate h]
    rfl
  · exact isDigit_toDigits h

theorem not_isSpace_digit {c : Char} (h : c.isDigit = true) : isSpace c = false :=
  not_isSpace_of (by decide) h

/-- The end of a line, or a blank that starts the next result. -/
def Ends (rest : List Char) : Prop := ∀ c ∈ rest.head?, c = ' '

theorem scanTime_timeText (time : ℕ) {rest : List Char} (h : Ends rest) :
    scanTime (timeText time ++ rest) = some (msText time, "ms".toList, rest) := by
  have hdrop : (timeText time ++ rest).dropWhile isSpace =
      msText time ++ ' ' :: ("ms".toList ++ rest) := by
    have hm : Munch isSpace (timeText time ++ rest) [' ', ' ']
        (msText time ++ ' ' :: ("ms".toList ++ rest)) := by
      obtain ⟨d, ds, hds⟩ := List.exists_cons_of_ne_nil
        (Nat.toDigits_ne_nil (b := 10) (n := time / 1000))
      have hd := isDigit_toDigits (by rw [hds]; exact List.mem_cons_self)
      refine ⟨by simp [timeText], by simp [isSpace], ?_⟩
      simp [msText, hds, not_isSpace_digit hd]
    exact (munch_iff.mp hm).2.symm
  have hunit : ("ms".toList ++ rest).takeWhile (fun c => !isSpace c) = "ms".toList := by
    have hm : Munch (fun c => !isSpace c) ("ms".toList ++ rest) "ms".toList rest := by
      refine ⟨rfl, fun c hc => ?_, fun c hc => ?_⟩
      · have hms : c = 'm' ∨ c = 's' := by simpa using hc
        rcases hms with rfl | rfl <;> decide
      · rw [h c hc]
        decide
    exact (munch_iff.mp hm).1.symm
  have hitem : floatItem (msText time ++ ' ' :: ("ms".toList ++ rest)) =
      some (msText time, ' ' :: ("ms".toList ++ rest)) := by
    unfold msText
    rw [List.append_assoc, List.cons_append]
    exact floatItem_decimal Nat.toDigits_ne_nil (fun c hc => isDigit_toDigits hc)
      fun c hc => isDigit_padText hc
  unfold scanTime
  rw [hdrop, hitem, Option.bind_some]
  dsimp only
  have hblank : (' ' :: ("ms".toList ++ rest)).dropWhile isSpace = "ms".toList ++ rest := by
    rfl
  rw [hblank, hunit]
  rfl

theorem timeMark_timeText (time : ℕ) {rest : List Char} (h : Ends rest) :
    timeMark (timeText time ++ rest) = true := by
  unfold timeMark
  rw [scanTime_timeText time h]
  rfl

end Times

end Iputils.TracerouteText
