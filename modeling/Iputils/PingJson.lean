import Iputils.JsonText
import Iputils.PingState

/-!
# The JSON buffers of ping

A `ping_json_buffer` holds a C string in a fixed array and a running size. The
size is advanced by what `snprintf` would have written, so that it runs ahead of
the string once a text has been cut off; a size beyond the array makes the next
write an overrun. The laws say that nothing is cut off as long as the size of
the finished buffer is below `PING_JSON_MAX`.
-/
set_option autoImplicit false

namespace Iputils.PingJson
open MachineInt PingState PrintfText

def pingJsonMax : ℕ := 4000

/-- `object` is the string up to its terminator; a `Char` stands for one byte. -/
structure JsonBuffer where
  size : ℕ := 0
  object : List Char := []
deriving Repr, DecidableEq

/-- The exit through `json_emergency`, and a write behind the end of the array. -/
inductive JsonFault
  | emergency | overrun
deriving Repr, DecidableEq

/-- `snprintf` to position `pos` with the room that `size` leaves, and `json_bufsize`. -/
def snprintfAt (b : JsonBuffer) (pos : ℕ) (text : List Char) : Except JsonFault JsonBuffer :=
  if b.size > pingJsonMax then .error .overrun
  else if text.length ≥ pingJsonMax then .error .emergency
  else
    let room := pingJsonMax - b.size
    .ok { size := b.size + text.length
          object := if room = 0 then b.object else b.object.take pos ++ text.take (room - 1) }

def jsonAppend (b : JsonBuffer) (text : List Char) : Except JsonFault JsonBuffer :=
  snprintfAt b b.size text

/-- Unlike the others this one writes to the front of the array. -/
def jsonStartObject (b : JsonBuffer) : Except JsonFault JsonBuffer := snprintfAt b 0 ['\x7b']

def jsonEndObject (b : JsonBuffer) : Except JsonFault JsonBuffer := jsonAppend b ['\x7d']

def jsonContinue (b : JsonBuffer) : Except JsonFault JsonBuffer := jsonAppend b ", ".toList

/-- A separator in an object that has been begun, else the opening brace. -/
def jsonBegin (b : JsonBuffer) : Except JsonFault JsonBuffer :=
  if b.object ≠ [] then jsonContinue b else jsonStartObject b

def keyText (key : String) : List Char := '"' :: key.toList ++ "\": ".toList

def strText (key : String) (val : List Char) : List Char := keyText key ++ '"' :: val ++ ['"']

def intText (key : String) (val : ℤ) : List Char := keyText key ++ decText val

def jsonKvStr (b : JsonBuffer) (key : String) (val : List Char) : Except JsonFault JsonBuffer :=
  jsonAppend b (strText key val)

def jsonKvStrContinue (b : JsonBuffer) (key : String) (val : List Char) :
    Except JsonFault JsonBuffer := do
  jsonContinue (← jsonKvStr b key val)

/-- The argument is converted to `int` by the call. -/
def jsonKvInt (b : JsonBuffer) (key : String) (val : ℤ) : Except JsonFault JsonBuffer :=
  jsonAppend b (intText key (i32 val))

def jsonKvIntContinue (b : JsonBuffer) (key : String) (val : ℤ) :
    Except JsonFault JsonBuffer := do
  jsonContinue (← jsonKvInt b key val)

def jsonKvObject (b : JsonBuffer) (key : String) (val : JsonBuffer) :
    Except JsonFault JsonBuffer := do
  let val ← jsonEndObject val
  jsonAppend b (keyText key ++ val.object)

/-- The object of the four round-trip figures, without its closing brace. -/
def rttObject (rttmin rttavg rttmax rttmdev : List Char) : Except JsonFault JsonBuffer := do
  let b ← jsonStartObject {}
  let b ← jsonKvStrContinue b "min" rttmin
  let b ← jsonKvStrContinue b "avg" rttavg
  let b ← jsonKvStrContinue b "max" rttmax
  jsonKvStr b "mdev" rttmdev

/-- `loss` is the percentage, converted from float to `int`. -/
def constructJsonStatistics (r : Rts) (b : JsonBuffer) (tv : Timespec) (loss : ℤ)
    (rttmin rttavg rttmax rttmdev : List Char) : Except JsonFault JsonBuffer :=
  if r.optJson = false then .ok b
  else do
    let b ← jsonBegin b
    let b ← jsonKvStrContinue b "host" r.hostname
    let b ← jsonKvIntContinue b "transmitted" r.ntransmitted
    let b ← jsonKvIntContinue b "received" r.nreceived
    let b ← jsonKvIntContinue b "duplicates" r.nrepeats
    let b ← jsonKvIntContinue b "corrupted" r.nchecksum
    let b ← jsonKvIntContinue b "errors" r.nerrors
    let b ← jsonKvIntContinue b "loss" loss
    let b ← jsonKvIntContinue b "time"
      (u64 (1000 * tv.tvSec + (tv.tvNsec + 500000).tdiv 1000000))
    let rtt ← rttObject rttmin rttavg rttmax rttmdev
    let b ← jsonKvObject b "rtt" rtt
    if r.pipesize > 1 then do
      let b ← jsonContinue b
      jsonKvIntContinue b "pipe" r.pipesize
    else pure b

def constructJsonStatisticsFlood (r : Rts) (b : JsonBuffer) (ipg ewma : List Char) :
    Except JsonFault JsonBuffer :=
  if r.optJson = false ∨ b.object = [] then .ok b
  else do
    let b ←
      if r.nreceived ≠ 0 ∧ r.timing = true ∧ r.pipesize < 2 then jsonContinue b else pure b
    let b ← jsonKvStrContinue b "ipg" ipg
    jsonKvStr b "ewma" ewma

/-- What is printed, and the buffer afterwards. -/
def printJsonStatistics (r : Rts) (b : JsonBuffer) : List Char × JsonBuffer :=
  if r.optJson = true ∧ b.object ≠ [] then (b.object ++ ['\x7d', '\n'], {}) else ([], b)

/-- A buffer into which exactly `text` has been written. -/
def JsonBuffer.ofText (text : List Char) : JsonBuffer := ⟨text.length, text⟩

def appendAll (b : JsonBuffer) (texts : List (List Char)) : Except JsonFault JsonBuffer :=
  texts.foldlM jsonAppend b

theorem appendAll_bind (b : JsonBuffer) (us vs : List (List Char)) :
    (appendAll b us >>= fun b => appendAll b vs) = appendAll b (us ++ vs) :=
  List.foldlM_append.symm

theorem appendAll_pure (b : JsonBuffer) (us : List (List Char)) :
    (appendAll b us >>= fun b => pure b) = appendAll b us := bind_pure _

theorem jsonAppend_eq (b : JsonBuffer) (u : List Char) : jsonAppend b u = appendAll b [u] :=
  (bind_pure (jsonAppend b u)).symm

/-- Each helper appends texts; `json_start_object` begins a fresh buffer with one. -/
theorem jsonContinue_eq (b : JsonBuffer) : jsonContinue b = appendAll b [", ".toList] :=
  jsonAppend_eq b _

theorem jsonKvStr_eq (b : JsonBuffer) (key : String) (val : List Char) :
    jsonKvStr b key val = appendAll b [strText key val] :=
  jsonAppend_eq b _

theorem jsonKvStrContinue_eq (b : JsonBuffer) (key : String) (val : List Char) :
    jsonKvStrContinue b key val = appendAll b [strText key val, ", ".toList] := by
  simp only [jsonKvStrContinue, jsonKvStr_eq, jsonContinue_eq, appendAll_bind]
  rfl

theorem jsonKvIntContinue_eq (b : JsonBuffer) (key : String) (val : ℤ) :
    jsonKvIntContinue b key val = appendAll b [intText key (i32 val), ", ".toList] := by
  simp only [jsonKvIntContinue, jsonKvInt, jsonAppend_eq, jsonContinue_eq, appendAll_bind]
  rfl

theorem ok_bind {α β : Type} (x : α) (f : α → Except JsonFault β) :
    (Except.ok x >>= f) = f x := rfl

theorem bind_eq_ok {α β : Type} {x : Except JsonFault α} {f : α → Except JsonFault β} {y : β}
    (h : (x >>= f) = .ok y) : ∃ a, x = .ok a ∧ f a = .ok y := by
  cases x with
  | error e => cases h
  | ok a => exact ⟨a, rfl, h⟩

theorem map_eq_ok {α β : Type} {x : Except JsonFault α} {f : α → β} {y : β}
    (h : x.map f = .ok y) : ∃ a, x = .ok a ∧ f a = y := by
  cases x with
  | error e => cases h
  | ok a => exact ⟨a, rfl, Except.ok.inj h⟩

theorem jsonStartObject_fresh : jsonStartObject {} = .ok (.ofText ['\x7b']) := rfl

theorem jsonAppend_size {b b' : JsonBuffer} {u : List Char} (h : jsonAppend b u = .ok b') :
    b'.size = b.size + u.length := by
  simp only [jsonAppend, snprintfAt] at h
  split_ifs at h <;> exact (congrArg JsonBuffer.size (Except.ok.inj h)).symm

theorem jsonAppend_ofText {t u : List Char} (h : t.length + u.length < pingJsonMax) :
    jsonAppend (.ofText t) u = .ok (.ofText (t ++ u)) := by
  have h₀ : ¬ (JsonBuffer.ofText t).size > pingJsonMax := by
    change ¬ t.length > pingJsonMax
    omega
  have h₁ : ¬ u.length ≥ pingJsonMax := by omega
  have h₂ : ¬ pingJsonMax - (JsonBuffer.ofText t).size = 0 := by
    change ¬ pingJsonMax - t.length = 0
    omega
  have h₃ : u.take (pingJsonMax - (JsonBuffer.ofText t).size - 1) = u :=
    List.take_of_length_le (by change u.length ≤ pingJsonMax - t.length - 1; omega)
  simp only [jsonAppend, snprintfAt, if_neg h₀, if_neg h₁, if_neg h₂, h₃]
  simp [JsonBuffer.ofText]

/-- Texts that fit are all written. -/
theorem appendAll_of_fit {t : List Char} {us : List (List Char)}
    (h : t.length + us.flatten.length < pingJsonMax) :
    appendAll (.ofText t) us = .ok (.ofText (t ++ us.flatten)) := by
  induction us generalizing t with
  | nil => simp [appendAll, pure, Except.pure]
  | cons u us ih =>
      rw [List.flatten_cons, List.length_append] at h
      have hrest : appendAll (.ofText (t ++ u)) us = .ok (.ofText (t ++ u ++ us.flatten)) :=
        ih (by rw [List.length_append]; omega)
      simp only [appendAll, List.foldlM_cons, jsonAppend_ofText (t := t) (u := u) (by omega), bind,
        Except.bind]
      rw [List.flatten_cons, ← List.append_assoc]
      exact hrest

theorem appendAll_size_le {b b' : JsonBuffer} {us : List (List Char)}
    (h : appendAll b us = .ok b') : b.size ≤ b'.size := by
  induction us generalizing b with
  | nil => exact (congrArg JsonBuffer.size (Except.ok.inj h)).le
  | cons u us ih =>
      simp only [appendAll, List.foldlM_cons] at h
      obtain ⟨b₁, hu, h'⟩ := bind_eq_ok h
      have hs := jsonAppend_size hu
      have hle := ih h'
      omega

/-- If the finished buffer is not full, every text has been written as a whole. -/
theorem appendAll_ofText {t : List Char} {us : List (List Char)} {b : JsonBuffer}
    (h : appendAll (.ofText t) us = .ok b) (hb : b.size < pingJsonMax) :
    b = .ofText (t ++ us.flatten) := by
  induction us generalizing t with
  | nil => simpa using (Except.ok.inj h).symm
  | cons u us ih =>
      simp only [appendAll, List.foldlM_cons] at h
      obtain ⟨b₁, hu, h'⟩ := bind_eq_ok h
      have hs : b₁.size = t.length + u.length := jsonAppend_size hu
      have hle := appendAll_size_le h'
      rw [jsonAppend_ofText (by omega)] at hu
      obtain rfl := Except.ok.inj hu
      simpa using ih h'

/-- The text of the object of the four round-trip figures. -/
def rttText (rttmin rttavg rttmax rttmdev : List Char) : List Char :=
  '\x7b' :: strText "min" rttmin ++ ", ".toList ++ strText "avg" rttavg ++ ", ".toList ++
    strText "max" rttmax ++ ", ".toList ++ strText "mdev" rttmdev ++ ['\x7d']

theorem length_strText (key : String) (val : List Char) :
    (strText key val).length = key.toList.length + 6 + val.length := by
  have hsep : "\": ".toList.length = 3 := rfl
  simp only [strText, keyText, List.length_append, List.length_cons, List.length_nil]
  omega

theorem length_rttText (rttmin rttavg rttmax rttmdev : List Char) :
    (rttText rttmin rttavg rttmax rttmdev).length =
      rttmin.length + rttavg.length + rttmax.length + rttmdev.length + 45 := by
  have hmin : "min".toList.length = 3 := rfl
  have havg : "avg".toList.length = 3 := rfl
  have hmax : "max".toList.length = 3 := rfl
  have hmdev : "mdev".toList.length = 4 := rfl
  have hcomma : ", ".toList.length = 2 := rfl
  simp only [rttText, List.length_append, List.length_cons, List.length_nil, length_strText,
    hcomma, hmin, havg, hmax, hmdev]
  omega

/-- The figures are short, so the inner object is never cut off. -/
theorem jsonKvObject_rtt {rttmin rttavg rttmax rttmdev : List Char}
    (h : rttmin.length + rttavg.length + rttmax.length + rttmdev.length < 3900) (b : JsonBuffer) :
    (rttObject rttmin rttavg rttmax rttmdev >>= fun rtt => jsonKvObject b "rtt" rtt) =
      appendAll b [keyText "rtt" ++ rttText rttmin rttavg rttmax rttmdev] := by
  have hlen := length_rttText rttmin rttavg rttmax rttmdev
  simp only [rttObject, jsonStartObject_fresh, jsonKvStrContinue_eq, jsonKvStr_eq, appendAll_bind,
    ok_bind, jsonKvObject, jsonEndObject, jsonAppend_eq]
  have hall : ∀ us : List (List Char), '\x7b' :: (us.flatten ++ ['\x7d']) =
      rttText rttmin rttavg rttmax rttmdev →
      (appendAll (.ofText ['\x7b']) us >>= fun rtt => appendAll rtt [['\x7d']] >>= fun rtt =>
        appendAll b [keyText "rtt" ++ rtt.object]) =
      appendAll b [keyText "rtt" ++ rttText rttmin rttavg rttmax rttmdev] := by
    intro us hus
    have hsize : us.flatten.length + 2 = (rttText rttmin rttavg rttmax rttmdev).length := by
      rw [← hus]
      simp
    rw [appendAll_of_fit (by simp only [List.length_cons, List.length_nil, pingJsonMax]; omega),
      ok_bind, appendAll_of_fit, ok_bind, ← hus]
    · simp [JsonBuffer.ofText]
    · simp only [List.length_append, List.length_cons, List.length_nil, List.flatten_cons,
        List.flatten_nil, pingJsonMax]
      omega
  exact hall _ (by simp [rttText])

/-- The texts behind the opening brace of the statistics object. -/
def statsTexts (r : Rts) (tv : Timespec) (loss : ℤ) (rtt : List Char) : List (List Char) :=
  [strText "host" r.hostname, ", ".toList,
   intText "transmitted" (i32 r.ntransmitted), ", ".toList,
   intText "received" (i32 r.nreceived), ", ".toList,
   intText "duplicates" (i32 r.nrepeats), ", ".toList,
   intText "corrupted" (i32 r.nchecksum), ", ".toList,
   intText "errors" (i32 r.nerrors), ", ".toList,
   intText "loss" (i32 loss), ", ".toList,
   intText "time" (i32 (u64 (1000 * tv.tvSec + (tv.tvNsec + 500000).tdiv 1000000))), ", ".toList,
   keyText "rtt" ++ rtt] ++
  if r.pipesize > 1 then [", ".toList, intText "pipe" (i32 r.pipesize), ", ".toList] else []

theorem constructJsonStatistics_eq {r : Rts} (hj : r.optJson = true) (tv : Timespec) (loss : ℤ)
    {rttmin rttavg rttmax rttmdev : List Char}
    (h : rttmin.length + rttavg.length + rttmax.length + rttmdev.length < 3900) :
    constructJsonStatistics r {} tv loss rttmin rttavg rttmax rttmdev =
      appendAll (.ofText ['\x7b'])
        (statsTexts r tv loss (rttText rttmin rttavg rttmax rttmdev)) := by
  have hbind : ∀ (b : JsonBuffer) (f : JsonBuffer → Except JsonFault JsonBuffer),
      (rttObject rttmin rttavg rttmax rttmdev >>= fun rtt => jsonKvObject b "rtt" rtt >>= f) =
        appendAll b [keyText "rtt" ++ rttText rttmin rttavg rttmax rttmdev] >>= f := by
    intro b f
    rw [← jsonKvObject_rtt h b, bind_assoc]
  have hstart : jsonBegin {} = .ok (.ofText ['\x7b']) := rfl
  unfold constructJsonStatistics
  rw [if_neg (by simp [hj]), hstart, ok_bind]
  simp only [jsonKvStrContinue_eq, jsonKvIntContinue_eq, jsonContinue_eq, hbind]
  unfold statsTexts
  split_ifs
  · simp only [appendAll_bind]
    rfl
  · simp only [appendAll_bind, appendAll_pure]
    rfl

/-- The texts that the flood figures add to an object that has a round-trip member. -/
def floodTexts (r : Rts) (ipg ewma : List Char) : List (List Char) :=
  (if r.pipesize < 2 then [", ".toList] else []) ++
    [strText "ipg" ipg, ", ".toList, strText "ewma" ewma]

theorem constructJsonStatisticsFlood_eq {r : Rts} (hj : r.optJson = true) (hn : r.nreceived ≠ 0)
    (ht : r.timing = true) {b : JsonBuffer} (hb : b.object ≠ []) (ipg ewma : List Char) :
    constructJsonStatisticsFlood r b ipg ewma = appendAll b (floodTexts r ipg ewma) := by
  unfold constructJsonStatisticsFlood floodTexts
  rw [if_neg (by simp [hj, hb])]
  simp only [hn, ht, ne_eq, not_false_eq_true, true_and, jsonContinue_eq, jsonKvStrContinue_eq,
    jsonKvStr_eq]
  split_ifs
  · simp only [appendAll_bind]
    rfl
  · simp only [appendAll_bind, pure_bind]
    rfl

end Iputils.PingJson
