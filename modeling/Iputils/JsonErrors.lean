import Iputils.JsonBounds
import Iputils.JsonBytes
import Iputils.PingOutput

/-!
# Errors as JSON

`construct_json_error` passes a message and the text of an error number to
`construct_json`, which takes variable arguments, and `json_kv_array` reads pointers
from the list until it finds one that is NULL. No such pointer is passed, so that the
reader goes on with whatever lies behind the two. The result says that an error is one
object with its message exactly if the message fits its buffer and, for an error with a
number, the word behind the arguments is zero.
-/
set_option autoImplicit false

namespace Iputils.JsonErrors
open PrintfText PingState JsonText PingJson JsonPacket JsonBounds PingOutput JsonReading Utf8Text
  JsonBytes

section Code

/-- A C string: bytes without a NUL. -/
structure CString where
  bytes : List UInt8
  nul : 0 ∉ bytes

/-- The string in a buffer of characters, one for each byte. -/
def CString.chars (s : CString) : List Char := s.bytes.map fun b => Char.ofNat b.toNat

/-- What `vsnprintf` leaves of a string in a buffer. -/
def CString.truncated (size : ℕ) (s : CString) : CString where
  bytes := s.bytes.take (size - 1)
  nul := fun h => s.nul (List.mem_of_mem_take h)

def lineBytes (line : List Char) : List UInt8 := line.map charByte

theorem zero_not_mem {s : List Char} (h : Clean s) : 0 ∉ utf8 s := by
  intro hzero
  have hmem : '\x00' ∈ s := mem_of_charByte (by decide) hzero
  exact absurd (h _ hmem).1 (by decide)

def CString.ofText (s : List Char) (h : Clean s) : CString := ⟨utf8 s, zero_not_mem h⟩

/-- The texts of the system for error numbers. -/
structure Strerror where
  text : ℤ → List Char
  clean : ∀ e, Clean (text e)
  short : ∀ e, (utf8 (text e)).length ≤ 1024

def Strerror.result (strerror : Strerror) (errnum : ℤ) : CString :=
  .ofText (strerror.text errnum) (strerror.clean errnum)

/-- A word that `va_arg` delivers as a pointer: NULL, the address of a string, or one
that cannot be read. -/
inductive VarArg
  | null
  | text (s : CString)
  | wild

/-- An exit of the encoder, or a read of memory that is not there. -/
inductive ErrorFault
  | json (fault : JsonFault)
  | wild
deriving DecidableEq

def lift {α : Type} (x : Except JsonFault α) : Except ErrorFault α := x.mapError .json

/-- The loop of `json_kv_array` over the words of the list, with its `count`. -/
def readArray (b : JsonBuffer) (count : ℕ) : List VarArg → Except ErrorFault JsonBuffer
  | [] => .error .wild
  | .null :: _ => .ok b
  | .wild :: _ => do
      let _ ← lift (if count > 0 then jsonContinue b else pure b)
      .error .wild
  | .text val :: args => do
      let b ← lift (if count > 0 then jsonContinue b else pure b)
      let b ← lift (jsonAppend b ('"' :: val.chars ++ ['"']))
      readArray b (count + 1) args

/-- `construct_json` with kind `PING_JSON_ARR`. -/
def constructJsonArray (r : Rts) (b : JsonBuffer) (key : String) (args : List VarArg) :
    Except ErrorFault JsonBuffer :=
  if r.optJson = false then .ok b
  else do
    let b ← lift (jsonBegin b)
    let b ← lift (jsonAppend b (keyText key ++ ['[']))
    let b ← readArray b 0 args
    lift (jsonAppend b [']'])

/-- The words behind the arguments that are passed are `beyond`. -/
def constructJsonError (strerror : Strerror) (r : Rts) (b : JsonBuffer) (errnum : ℤ)
    (errmsg : Option CString) (beyond : List VarArg) :
    Except ErrorFault (List Char × JsonBuffer) :=
  if errnum < 0 then .error (.json .emergency)
  else do
    let b ← match errmsg with
      | some msg =>
          if errnum = 0 then lift (constructJson r b (.str "error" msg.chars))
          else
            constructJsonArray r b "error" (.text msg :: .text (strerror.result errnum) :: beyond)
      | none => lift (constructJson r b (.str "error" (strerror.result errnum).chars))
    pure (printJsonPacket r b)

/-- What an error prints to standard output, the buffer behind it, and the exit status
if it is the end. -/
structure Emission where
  out : List Char
  packet : JsonBuffer
  exit : Option ℤ

/-- `msg` is the formatted message. -/
def pingError (strerror : Strerror) (r : Rts) (b : JsonBuffer) (status errnum : ℤ)
    (msg : CString) (beyond : List VarArg) : Except ErrorFault Emission :=
  let msg := msg.truncated pingErrorMax
  if r.optJson = true then do
    let (out, b) ← constructJsonError strerror r b errnum (some msg) beyond
    pure { out := out, packet := b, exit := if status > 0 then some status else none }
  else pure { out := [], packet := b, exit := if status ≠ 0 then some status else none }

end Code

section Lines

theorem lineBytes_chars (s : CString) : lineBytes s.chars = s.bytes := map_charByte s.bytes

theorem lineBytes_append (s t : List Char) : lineBytes (s ++ t) = lineBytes s ++ lineBytes t :=
  List.map_append

theorem length_lineBytes (s : List Char) : (lineBytes s).length = s.length := List.length_map _

theorem length_chars (s : CString) : s.chars.length = s.bytes.length := List.length_map _

theorem lineBytes_quoted (s : CString) : lineBytes (quoted s.chars) = quotedBytes s.bytes := by
  have hchars := lineBytes_chars s
  unfold lineBytes at hchars ⊢
  unfold quoted quotedBytes
  rw [List.map_cons, List.map_append, hchars]
  rfl

def errorKey : Key where
  text := "error".toList
  clean := by decide +kernel
  ascii := by decide +kernel

/-- The beginning of every error object. -/
def errorFront : List Char := '\x7b' :: errorKey.front

theorem errorFront_eq : errorFront = '\x7b' :: keyText "error" := rfl

theorem lift_ok {α : Type} {x : Except JsonFault α} {y : α} (h : lift x = .ok y) : x = .ok y := by
  cases x with
  | error e => cases h
  | ok a => rw [Except.ok.inj h]

theorem bind_ok {α β : Type} {x : Except ErrorFault α} {f : α → Except ErrorFault β} {y : β}
    (h : (x >>= f) = .ok y) : ∃ a, x = .ok a ∧ f a = .ok y := by
  cases x with
  | error e => cases h
  | ok a => exact ⟨a, rfl, h⟩

theorem lift_bind {α β : Type} (x : Except JsonFault α) (f : α → Except JsonFault β) :
    lift (x >>= f) = lift x >>= fun a => lift (f a) := by
  cases x <;> rfl

theorem readArray_texts (b : JsonBuffer) (count : ℕ) (vals : List CString) (rest : List VarArg) :
    readArray b count (vals.map .text ++ .null :: rest) =
      lift (jsonElements b count (vals.map CString.chars)) := by
  induction vals generalizing b count with
  | nil => rfl
  | cons val vals ih =>
      rw [List.map_cons, List.cons_append, List.map_cons, readArray, jsonElements]
      simp only [ih]
      split_ifs <;> simp only [lift_bind]

/-- The loop ends at a NULL. -/
theorem readArray_ok {b b' : JsonBuffer} {count : ℕ} {args : List VarArg}
    (h : readArray b count args = .ok b') :
    ∃ (vals : List CString) (rest : List VarArg), args = vals.map .text ++ .null :: rest := by
  induction args generalizing b count with
  | nil => cases h
  | cons arg args ih =>
      cases arg with
      | null => exact ⟨[], args, rfl⟩
      | wild =>
          obtain ⟨_, -, h⟩ := bind_ok h
          cases h
      | text val =>
          obtain ⟨_, -, h⟩ := bind_ok h
          obtain ⟨_, -, h⟩ := bind_ok h
          obtain ⟨vals, rest, rfl⟩ := ih h
          exact ⟨val :: vals, rest, rfl⟩

theorem constructJsonArray_texts (r : Rts) (b : JsonBuffer) (key : String) (vals : List CString)
    (rest : List VarArg) :
    constructJsonArray r b key (vals.map .text ++ .null :: rest) =
      lift (constructJson r b (.arr key (vals.map CString.chars))) := by
  unfold constructJsonArray constructJson
  split_ifs
  · rfl
  · simp only [readArray_texts, lift_bind, jsonKvArray]

end Lines

section Emitting
variable {r : Rts}

theorem constructJson_texts (hj : r.optJson = true) (call : JsonCall) :
    constructJson r {} call = appendAll {} (['\x7b'] :: jsonTexts call) := by
  have hrun := run_eq held_empty r (.json call)
  have hpieces : BufferCall.pieces r (begun {}) (.json call) =
      texts (['\x7b'] :: jsonTexts call) := by
    unfold BufferCall.pieces
    rw [if_neg (by rw [hj]; decide)]
    rfl
  rw [hpieces, appendPieces_texts] at hrun
  exact hrun

/-- What has been written stays. -/
theorem appendAll_front {b b' : JsonBuffer} {us : List (List Char)} (hb : Held b)
    (h : appendAll b us = .ok b') : b.object <+: b'.object := by
  induction us generalizing b with
  | nil =>
      obtain rfl := Except.ok.inj h
      exact List.prefix_rfl
  | cons u us ih =>
      obtain ⟨b₁, hu, h⟩ := bind_eq_ok h
      obtain ⟨-, k, hobject, -⟩ := jsonAppend_object hb hu
      refine List.IsPrefix.trans ?_ (ih (held_append hb hu) h)
      rw [hobject]
      exact List.prefix_append _ _

theorem held_ofText (t : List Char) : Held (.ofText t) :=
  ⟨le_rfl, fun h => by rw [JsonBuffer.ofText] at h ⊢; exact List.length_eq_zero_iff.mpr h⟩

/-- As long as there is room, the first character of a text is written. -/
theorem jsonAppend_head {t u : List Char} {c : Char} {b : JsonBuffer}
    (ht : t.length + 1 < pingJsonMax) (h : jsonAppend (.ofText t) (c :: u) = .ok b) :
    ∃ w, b.object = t ++ c :: w := by
  have hsize : (JsonBuffer.ofText t).size = t.length := rfl
  obtain ⟨k, hk⟩ : ∃ k, pingJsonMax - t.length - 1 = k + 1 :=
    ⟨pingJsonMax - t.length - 2, by omega⟩
  unfold jsonAppend snprintfAt at h
  dsimp only at h
  rw [hsize] at h
  split_ifs at h with h₁ h₂ h₃
  · omega
  · obtain rfl := Except.ok.inj h
    refine ⟨u.take k, ?_⟩
    dsimp only
    rw [hk, List.take_succ_cons]
    exact congrArg (· ++ c :: u.take k) (List.take_length (l := t))

/-- What is printed of a buffer, with the exit status. -/
def emission (r : Rts) (status : ℤ) (b : JsonBuffer) : Emission where
  out := (printJsonPacket r b).1
  packet := (printJsonPacket r b).2
  exit := if status > 0 then some status else none

theorem emission_out (hj : r.optJson = true) (status : ℤ) {b : JsonBuffer} (hb : b.object ≠ []) :
    (emission r status b).out = b.object ++ ['\x7d', '\n'] ∧ (emission r status b).packet = {} := by
  unfold emission printJsonPacket
  rw [if_pos ⟨hj, hb⟩]
  exact ⟨rfl, rfl⟩

theorem pingError_zero (hj : r.optJson = true) (strerror : Strerror) (status : ℤ) (msg : CString)
    (beyond : List VarArg) :
    pingError strerror r {} status 0 msg beyond =
      lift (constructJson r {} (.str "error" (msg.truncated pingErrorMax).chars)) >>= fun b =>
        pure (emission r status b) := by
  unfold pingError constructJsonError
  rw [if_pos hj, if_neg (by decide)]
  simp only [if_pos, bind_assoc, pure_bind]
  rfl

theorem pingError_pos (hj : r.optJson = true) (strerror : Strerror) (status : ℤ) {errnum : ℤ}
    (he : 0 < errnum) (msg : CString) (beyond : List VarArg) :
    pingError strerror r {} status errnum msg beyond =
      constructJsonArray r {} "error" (.text (msg.truncated pingErrorMax) ::
        .text (strerror.result errnum) :: beyond) >>= fun b => pure (emission r status b) := by
  have hne : errnum ≠ 0 := he.ne'
  unfold pingError constructJsonError
  rw [if_pos hj, if_neg (by omega)]
  simp only [if_neg hne, bind_assoc, pure_bind]
  rfl

theorem length_truncated (msg : CString) :
    (msg.truncated pingErrorMax).chars.length < pingErrorMax := by
  rw [length_chars]
  exact lt_of_le_of_lt (List.length_take_le _ _) (by decide)

/-- The object of an error without a number. -/
theorem error_str (hj : r.optJson = true) {s : List Char} (hs : s.length < pingErrorMax) :
    constructJson r {} (.str "error" s) = .ok (.ofText (errorFront ++ quoted s)) := by
  have hflat : (['\x7b'] :: jsonTexts (.str "error" s)).flatten = errorFront ++ quoted s := by
    simp [jsonTexts, strText, errorFront_eq, quoted]
  have hfront : errorFront.length = 10 := by decide +kernel
  rw [constructJson_texts hj]
  have hfit := @appendAll_of_fit [] (['\x7b'] :: jsonTexts (.str "error" s)) (by
    rw [hflat, List.length_append, hfront]
    simp only [quoted, List.length_cons, List.length_append, List.length_nil]
    unfold pingErrorMax at hs
    unfold pingJsonMax
    omega)
  rw [hflat] at hfit
  exact hfit

/-- The object of an error with a number, up to the second string. -/
def arrayFront (s t : List Char) : List Char :=
  errorFront ++ '[' :: (quoted s ++ ',' :: ' ' :: quoted t)

theorem length_arrayFront {s t : List Char} (hs : s.length < pingErrorMax) (ht : t.length ≤ 1024) :
    (arrayFront s t).length < 1400 := by
  have hfront : errorFront.length = 10 := by decide +kernel
  simp only [arrayFront, quoted, List.length_cons, List.length_append, List.length_nil, hfront]
  unfold pingErrorMax at hs
  omega

/-- The texts of the array are those up to the second string, and the rest. -/
theorem appendAll_array {s t : List Char} (hs : s.length < pingErrorMax) (ht : t.length ≤ 1024)
    (extras : List (List Char)) :
    appendAll {} (['\x7b'] :: jsonTexts (.arr "error" (s :: t :: extras))) =
      appendAll (.ofText (arrayFront s t)) (elementTexts 2 extras ++ [[']']]) := by
  have hlen := length_arrayFront hs ht
  have hsplit : ['\x7b'] :: jsonTexts (.arr "error" (s :: t :: extras)) =
      [['\x7b'], keyText "error" ++ ['['], quoted s, ", ".toList, quoted t] ++
        (elementTexts 2 extras ++ [[']']]) := rfl
  have hflat : [['\x7b'], keyText "error" ++ ['['], quoted s, ", ".toList, quoted t].flatten =
      arrayFront s t := by
    simp [arrayFront, errorFront_eq]
  have hfit := @appendAll_of_fit []
    [['\x7b'], keyText "error" ++ ['['], quoted s, ", ".toList, quoted t] (by
      rw [hflat, List.length_nil]
      unfold pingJsonMax
      omega)
  have hstart : ({} : JsonBuffer) = .ofText [] := rfl
  rw [hsplit, ← appendAll_bind, hstart, hfit, ok_bind, hflat, List.nil_append]

theorem error_array (hj : r.optJson = true) {s t : List Char} (hs : s.length < pingErrorMax)
    (ht : t.length ≤ 1024) :
    constructJson r {} (.arr "error" [s, t]) = .ok (.ofText (arrayFront s t ++ [']'])) := by
  have hlen := length_arrayFront hs ht
  have hfit := @appendAll_of_fit (arrayFront s t) [[']']] (by
    unfold pingJsonMax
    simp
    omega)
  rw [constructJson_texts hj, appendAll_array hs ht]
  rw [List.flatten_singleton] at hfit
  exact hfit

/-- Behind further strings the array goes on. -/
theorem error_array_more (hj : r.optJson = true) {s t x : List Char} (hs : s.length < pingErrorMax)
    (ht : t.length ≤ 1024) {extras : List (List Char)} {b : JsonBuffer}
    (h : constructJson r {} (.arr "error" (s :: t :: x :: extras)) = .ok b) :
    ∃ w, b.object = arrayFront s t ++ ',' :: ' ' :: '"' :: w := by
  have hlen := length_arrayFront hs ht
  have hrest : elementTexts 2 (x :: extras) ++ [[']']] =
      ", ".toList :: quoted x :: (elementTexts 3 extras ++ [[']']]) := rfl
  rw [constructJson_texts hj, appendAll_array hs ht, hrest] at h
  obtain ⟨b₁, hcomma, h⟩ := bind_eq_ok h
  have hfit : (arrayFront s t).length + ", ".toList.length < pingJsonMax := by
    have htwo : ", ".toList.length = 2 := rfl
    rw [htwo]
    unfold pingJsonMax
    omega
  rw [jsonAppend_ofText hfit] at hcomma
  obtain rfl := Except.ok.inj hcomma
  obtain ⟨b₂, hquote, h⟩ := bind_eq_ok h
  obtain ⟨w, hw⟩ := jsonAppend_head (c := '"') (u := x ++ ['"']) (by
    have htwo : ", ".toList.length = 2 := rfl
    rw [List.length_append, htwo]
    unfold pingJsonMax
    omega) hquote
  obtain ⟨v, hv⟩ := appendAll_front (held_append (held_ofText _) hquote) h
  refine ⟨w ++ v, ?_⟩
  rw [← hv, hw]
  simp

end Emitting

section Law
variable {r : Rts}

/-- The value of the member of an error. -/
def errorValue (strerror : Strerror) (errnum : ℤ) (message : List Char) : Json :=
  if errnum = 0 then .str message else .arr [.str message, .str (strerror.text errnum)]

/-- One line that is an object with this error, and an empty buffer behind it. -/
def EmitsError (result : Except ErrorFault Emission) (value : Json) : Prop :=
  ∃ e line, result = .ok e ∧ e.out = line ++ ['\n'] ∧ e.packet = {} ∧ '\n' ∉ line ∧
    ReadsAs (lineBytes line) (.obj [("error".toList, value)])

theorem lineBytes_errorFront : lineBytes errorFront = errorFront.map charByte := rfl

theorem ascii_errorFront : ∀ c ∈ errorFront, Ascii c := by decide +kernel

/-- What a reader of an error line has read behind the key. -/
theorem readsAs_error {line : List Char} {v : Json}
    (h : ReadsAs (lineBytes (errorFront ++ line)) (.obj [("error".toList, v)]))
    (hstart : line.head? = some '"' ∨ line.head? = some '[') :
    ∃ cs n rest, utf8 cs = lineBytes line ∧ parseValue n cs = some (v, rest) := by
  obtain ⟨cs, hcs, hparse⟩ := h
  rw [lineBytes_append, lineBytes_errorFront] at hcs
  obtain ⟨cs, rfl, hcs'⟩ := utf8_ascii_append ascii_errorFront hcs
  have hskip : skipWs cs = cs := by
    obtain ⟨d, ds, hd, rfl⟩ : ∃ d ds, (d = '"' ∨ d = '[') ∧ line = d :: ds := by
      cases line with
      | nil => simp at hstart
      | cons d ds => exact ⟨d, ds, by simpa using hstart, rfl⟩
    have hascii : Ascii d := by obtain rfl | rfl := hd <;> decide
    obtain ⟨ds', rfl, -⟩ := decode_char hascii hcs'
    obtain rfl | rfl := hd <;> rfl
  have hshape : errorFront ++ cs =
      '\x7b' :: '"' :: ("error".toList ++ '"' :: ':' :: ' ' :: cs) := by
    simp [errorFront, Key.front, errorKey]
  rw [hshape] at hparse
  obtain ⟨-, n, rest, hread⟩ := parse_front (by decide +kernel) hskip hparse
  exact ⟨cs, n, rest, hcs', hread⟩

/-- A string is read, perhaps with more behind it, only if nothing more is there. -/
theorem read_string {cs message rest : List Char} {n : ℕ} {s more z : List UInt8}
    (hcs : utf8 cs = quotedBytes s ++ z) (hmessage : utf8 message = s ++ more)
    (h : parseValue n cs = some (.str message, rest)) : more = [] := by
  obtain ⟨t, cs', rfl, rfl, -⟩ := decode_quoted hcs
  obtain ⟨d, rfl, rfl⟩ := utf8_front hmessage.symm
  rw [(parseValue_front h).2.1]
  rfl

/-- The same for the first of two strings in an array, and no third one follows. -/
theorem read_array {cs message e rest : List Char} {n : ℕ} {s more z : List UInt8}
    (hcs : utf8 cs = charByte '[' :: (quotedBytes s ++
      charByte ',' :: charByte ' ' :: (quotedBytes (utf8 e) ++ z)))
    (hmessage : utf8 message = s ++ more)
    (h : parseValue n cs = some (.arr [.str message, .str e], rest)) :
    more = [] ∧ ∀ w, z ≠ charByte ',' :: charByte ' ' :: charByte '"' :: w := by
  obtain ⟨cs₁, rfl, h₁⟩ := decode_char (d := '[') (by decide) hcs
  obtain ⟨t, cs₂, rfl, rfl, h₂⟩ := decode_quoted h₁
  obtain ⟨cs₃, rfl, h₃⟩ := decode_char (d := ',') (by decide) h₂
  obtain ⟨cs₄, rfl, h₄⟩ := decode_char (d := ' ') (by decide) h₃
  obtain ⟨u, cs₅, hu, rfl, h₅⟩ := decode_quoted h₄
  obtain rfl := utf8_injective hu
  obtain ⟨d, rfl, rfl⟩ := utf8_front hmessage.symm
  obtain ⟨k, vs, hvs, helements⟩ := parseValue_array h
  obtain rfl := Json.arr.inj hvs
  obtain ⟨-, rfl, m, rfl, hfirst⟩ := parseElements_front helements
  refine ⟨rfl, ?_⟩
  rintro w rfl
  obtain ⟨cs₆, rfl, h₆⟩ := decode_char (d := ',') (by decide) h₅
  obtain ⟨cs₇, rfl, h₇⟩ := decode_char (d := ' ') (by decide) h₆
  obtain ⟨cs₈, rfl, -⟩ := decode_char (d := '"') (by decide) h₇
  have hmore := parseElements_more _ hfirst
  obtain ⟨p, hp, heq⟩ := Option.map_eq_some_iff.mp (hmore.symm.trans helements)
  refine @parseElements_ne_singleton m u cs₈ p.2 ?_
  rw [← (List.cons.inj (Prod.mk.inj heq).1).2]
  exact hp

theorem bytes_truncated (msg : CString) :
    msg.bytes = (msg.truncated pingErrorMax).bytes ++ msg.bytes.drop 299 :=
  (List.take_append_drop 299 msg.bytes).symm

theorem short_of_drop {msg : CString} (h : msg.bytes.drop 299 = []) :
    msg.bytes.length < pingErrorMax := by
  rw [List.drop_eq_nil_iff] at h
  unfold pingErrorMax
  omega

theorem truncated_of_short {msg : CString} (h : msg.bytes.length < pingErrorMax) :
    msg.truncated pingErrorMax = msg := by
  have htake : msg.bytes.take (pingErrorMax - 1) = msg.bytes :=
    List.take_of_length_le (Nat.le_sub_one_of_lt h)
  cases msg
  unfold CString.truncated
  congr

/-- The line of a buffer that has been printed. -/
theorem line_of_emission (hj : r.optJson = true) {status : ℤ} {b : JsonBuffer} {line : List Char}
    (hb : b.object ≠ []) (h : (emission r status b).out = line ++ ['\n']) :
    line = b.object ++ ['\x7d'] := by
  rw [(emission_out hj status hb).1] at h
  have hsplit : b.object ++ ['\x7d', '\n'] = (b.object ++ ['\x7d']) ++ ['\n'] := by simp
  rw [hsplit] at h
  exact (List.append_cancel_right h).symm

theorem errorFront_ne_nil (t : List Char) :
    (JsonBuffer.ofText (errorFront ++ t)).object ≠ [] := List.cons_ne_nil _ _

/-- If the array is finished, a NULL stands somewhere behind the arguments. -/
theorem array_ok (hj : r.optJson = true) {s t : CString} {beyond : List VarArg} {b : JsonBuffer}
    (h : constructJsonArray r {} "error" (.text s :: .text t :: beyond) = .ok b) :
    ∃ (extras : List CString) (rest : List VarArg), beyond = extras.map .text ++ .null :: rest ∧
      constructJson r {} (.arr "error" (s.chars :: t.chars :: extras.map CString.chars)) =
        .ok b := by
  have hread := h
  unfold constructJsonArray at hread
  rw [if_neg (by rw [hj]; decide)] at hread
  obtain ⟨_, -, hread⟩ := bind_ok hread
  obtain ⟨_, -, hread⟩ := bind_ok hread
  obtain ⟨_, hread, -⟩ := bind_ok hread
  obtain ⟨vals, rest, hvals⟩ := readArray_ok hread
  match vals, hvals with
  | [], hvals => cases (List.cons.inj hvals).1
  | [_], hvals => cases (List.cons.inj (List.cons.inj hvals).2).1
  | _ :: _ :: extras, hvals =>
      obtain ⟨hs, hvals⟩ := List.cons.inj hvals
      obtain ⟨ht, rfl⟩ := List.cons.inj hvals
      obtain rfl := VarArg.text.inj hs
      obtain rfl := VarArg.text.inj ht
      have hcall := constructJsonArray_texts r {} "error" (s :: t :: extras) rest
      exact ⟨extras, rest, rfl, lift_ok (hcall.symm.trans h)⟩

theorem lineBytes_array (s t : CString) (z : List Char) :
    lineBytes ('[' :: (quoted s.chars ++ ',' :: ' ' :: quoted t.chars) ++ z) =
      charByte '[' :: (quotedBytes s.bytes ++
        charByte ',' :: charByte ' ' :: (quotedBytes t.bytes ++ lineBytes z)) := by
  rw [← lineBytes_quoted s, ← lineBytes_quoted t]
  simp [lineBytes]

/-- What is read of an object that begins with the two strings. -/
theorem array_read (hj : r.optJson = true) {status : ℤ} {s t : CString} {b : JsonBuffer}
    {line z message e : List Char} {more : List UInt8}
    (hb : b.object = arrayFront s.chars t.chars ++ z)
    (hout : (emission r status b).out = line ++ ['\n']) (ht : t.bytes = utf8 e)
    (hmessage : utf8 message = s.bytes ++ more)
    (h : ReadsAs (lineBytes line) (.obj [("error".toList, .arr [.str message, .str e])])) :
    more = [] ∧ ∀ w, lineBytes (z ++ ['\x7d']) ≠
      charByte ',' :: charByte ' ' :: charByte '"' :: w := by
  have hne : b.object ≠ [] := by
    rw [hb]
    exact List.cons_ne_nil _ _
  obtain rfl := line_of_emission hj hne hout
  have hshape : b.object ++ ['\x7d'] = errorFront ++
      ('[' :: (quoted s.chars ++ ',' :: ' ' :: quoted t.chars) ++ (z ++ ['\x7d'])) := by
    rw [hb, arrayFront]
    simp
  rw [hshape] at h
  obtain ⟨cs, n, rest, hcs, hread⟩ := readsAs_error h (.inr rfl)
  rw [lineBytes_array, ht] at hcs
  exact read_array hcs hmessage hread

theorem quoted_head (s t : List Char) : (quoted s ++ t).head? = some '"' := rfl

/-- An error line that reads as it should has the whole message, and nothing behind the
arguments. -/
theorem conditions_of_emits (hj : r.optJson = true) (strerror : Strerror) (status : ℤ)
    {errnum : ℤ} (he : 0 ≤ errnum) {message : List Char} (hm : Clean message)
    {beyond : List VarArg}
    (h : EmitsError (pingError strerror r {} status errnum (.ofText message hm) beyond)
      (errorValue strerror errnum message)) :
    (utf8 message).length < pingErrorMax ∧ (errnum = 0 ∨ beyond.head? = some .null) := by
  obtain ⟨e, line, hresult, hout, -, -, hreads⟩ := h
  have hcut := length_truncated (CString.ofText message hm)
  have hbytes := bytes_truncated (CString.ofText message hm)
  by_cases hzero : errnum = 0
  · subst hzero
    rw [pingError_zero hj, error_str hj hcut] at hresult
    obtain rfl := Except.ok.inj hresult
    obtain rfl := line_of_emission hj (errorFront_ne_nil _) hout
    change ReadsAs (lineBytes (errorFront ++ _ ++ _)) _ at hreads
    rw [List.append_assoc] at hreads
    obtain ⟨cs, n, rest, hcs, hread⟩ := readsAs_error hreads (.inl (quoted_head _ _))
    rw [lineBytes_append, lineBytes_quoted] at hcs
    exact ⟨short_of_drop (read_string hcs hbytes hread), .inl rfl⟩
  · have hpos : 0 < errnum := by omega
    have htext : (strerror.result errnum).chars.length ≤ 1024 := by
      rw [length_chars]
      exact strerror.short errnum
    rw [pingError_pos hj strerror status hpos] at hresult
    obtain ⟨b, hb, hresult⟩ := bind_ok hresult
    obtain rfl := Except.ok.inj hresult
    obtain ⟨extras, rest, rfl, hcall⟩ := array_ok hj hb
    unfold errorValue at hreads
    rw [if_neg hzero] at hreads
    cases extras with
    | nil =>
        rw [List.map_nil, error_array hj hcut htext] at hcall
        obtain rfl := Except.ok.inj hcall
        exact ⟨short_of_drop (array_read hj rfl hout rfl hbytes hreads).1, .inr rfl⟩
    | cons x extras =>
        obtain ⟨w, hw⟩ := error_array_more hj hcut htext hcall
        exact absurd rfl ((array_read hj hw hout rfl hbytes hreads).2 (lineBytes (w ++ ['\x7d'])))

theorem openObject_error (v : Raw) :
    openObject [⟨"error".toList, by decide +kernel, v⟩] = errorFront ++ v.text := by
  simp [openObject, joined, Entry.text, errorFront, Key.front, errorKey]

theorem newline_quoted {s : List Char} (h : Clean s) : '\n' ∉ quoted s := by
  have := h.newline
  simp [quoted, this]

/-- A buffer with a clean object is printed as one. -/
theorem emits_object (hj : r.optJson = true) (status : ℤ) {b : JsonBuffer} {v : Raw}
    (hne : b.object ≠ []) (hclean : v.Clean) (hnewline : '\n' ∉ v.text)
    (hbytes : lineBytes b.object = utf8 (errorFront ++ v.text)) :
    EmitsError (.ok (emission r status b)) v.json := by
  obtain ⟨hout, hpacket⟩ := emission_out hj status hne
  have hline : lineBytes (b.object ++ ['\x7d']) = utf8 (errorFront ++ v.text ++ ['\x7d']) := by
    rw [lineBytes_append, hbytes, utf8_append _ ['\x7d'], utf8_ascii (s := ['\x7d']) (by decide)]
    rfl
  refine ⟨_, b.object ++ ['\x7d'], rfl, by rw [hout]; simp, hpacket, ?_, _, hline.symm, ?_⟩
  · intro hmem
    have hbyte : charByte '\n' ∈ utf8 (errorFront ++ v.text ++ ['\x7d']) := by
      rw [← hline]
      exact List.mem_map_of_mem hmem
    have hchar := mem_of_charByte (by decide) hbyte
    have hfront : '\n' ∉ errorFront := by decide +kernel
    simp only [List.mem_append, List.mem_singleton] at hchar
    obtain (hchar | hchar) | hchar := hchar
    · exact hfront hchar
    · exact hnewline hchar
    · cases hchar
  · rw [← openObject_error]
    refine (parse_openObject (List.cons_ne_nil _ _)).mpr fun f hf => ?_
    obtain rfl := List.mem_singleton.mp hf
    exact hclean

theorem lineBytes_text {s : List Char} (hs : Clean s) :
    lineBytes (quoted (CString.ofText s hs).chars) = utf8 (quoted s) := by
  rw [lineBytes_quoted, utf8_quoted]
  rfl

theorem lineBytes_pair {s t : List Char} (hs : Clean s) (ht : Clean t) :
    lineBytes (arrayFront (CString.ofText s hs).chars (CString.ofText t ht).chars ++ [']']) =
      utf8 (errorFront ++ (Raw.arr [s, t]).text) := by
  have hleft : arrayFront (CString.ofText s hs).chars (CString.ofText t ht).chars ++ [']'] =
      errorFront ++ ('[' :: (quoted (CString.ofText s hs).chars ++
        ',' :: ' ' :: quoted (CString.ofText t ht).chars) ++ [']']) := List.append_assoc _ _ _
  have hright : (Raw.arr [s, t]).text =
      ['['] ++ (quoted s ++ ([',', ' '] ++ (quoted t ++ [']']))) := by
    simp [Raw.text, joined]
  have hopen : utf8 ['['] = [charByte '['] := utf8_ascii (by decide)
  have hcomma : utf8 [',', ' '] = [charByte ',', charByte ' '] := utf8_ascii (by decide)
  have hclose : utf8 [']'] = [charByte ']'] := utf8_ascii (by decide)
  rw [hleft, lineBytes_append, lineBytes_array, hright]
  simp only [utf8_append, utf8_quoted, hopen, hcomma, hclose, utf8_ascii ascii_errorFront]
  rfl

section Fits
variable {message : List Char} (hm : Clean message)

theorem emits_str (hj : r.optJson = true) (strerror : Strerror) (status : ℤ)
    (beyond : List VarArg) (hshort : (utf8 message).length < pingErrorMax) :
    EmitsError (pingError strerror r {} status 0 (.ofText message hm) beyond) (.str message) := by
  have hsame : (CString.ofText message hm).truncated pingErrorMax = .ofText message hm :=
    truncated_of_short hshort
  have hlen : (CString.ofText message hm).chars.length < pingErrorMax := by
    rw [length_chars]
    exact hshort
  rw [pingError_zero hj, hsame, error_str hj hlen]
  refine emits_object hj status (errorFront_ne_nil _) (v := .str message) hm
    (newline_quoted hm) ?_
  change lineBytes (errorFront ++ _) = utf8 (errorFront ++ quoted message)
  rw [lineBytes_append, lineBytes_text hm, utf8_append, utf8_ascii ascii_errorFront]
  rfl

theorem emits_pair (hj : r.optJson = true) (strerror : Strerror) (status : ℤ) {errnum : ℤ}
    (he : 0 < errnum) (rest : List VarArg) (hshort : (utf8 message).length < pingErrorMax) :
    EmitsError (pingError strerror r {} status errnum (.ofText message hm) (.null :: rest))
      (.arr [.str message, .str (strerror.text errnum)]) := by
  have hsame : (CString.ofText message hm).truncated pingErrorMax = .ofText message hm :=
    truncated_of_short hshort
  have hlen : (CString.ofText message hm).chars.length < pingErrorMax := by
    rw [length_chars]
    exact hshort
  have htext : (strerror.result errnum).chars.length ≤ 1024 := by
    rw [length_chars]
    exact strerror.short errnum
  have hclean := strerror.clean errnum
  have harray := constructJsonArray_texts r {} "error"
    [.ofText message hm, strerror.result errnum] rest
  rw [List.map_cons, List.map_cons, List.map_nil, List.cons_append, List.cons_append,
    List.nil_append, List.map_cons, List.map_cons, List.map_nil, error_array hj hlen htext]
    at harray
  rw [pingError_pos hj strerror status he, hsame, harray]
  refine emits_object hj status (errorFront_ne_nil _)
    (v := .arr [message, strerror.text errnum]) ?_ ?_ ?_
  · exact List.forall_mem_cons.mpr ⟨hm, List.forall_mem_singleton.mpr hclean⟩
  · have := newline_quoted hm
    have := newline_quoted hclean
    simp [Raw.text, joined, *]
  · exact lineBytes_pair hm hclean

end Fits

/-- A message that fits, without a third pointer, gives the object. -/
theorem emits_of_conditions (hj : r.optJson = true) (strerror : Strerror) (status : ℤ)
    {errnum : ℤ} (he : 0 ≤ errnum) {message : List Char} (hm : Clean message)
    {beyond : List VarArg} (hshort : (utf8 message).length < pingErrorMax)
    (hbeyond : errnum = 0 ∨ beyond.head? = some .null) :
    EmitsError (pingError strerror r {} status errnum (.ofText message hm) beyond)
      (errorValue strerror errnum message) := by
  unfold errorValue
  by_cases hzero : errnum = 0
  · subst hzero
    exact emits_str hm hj strerror status beyond hshort
  · obtain ⟨rest, rfl⟩ : ∃ rest, beyond = .null :: rest :=
      List.head?_eq_some_iff.mp (hbeyond.resolve_left hzero)
    rw [if_neg hzero]
    exact emits_pair hm hj strerror status (by omega) rest hshort

/-- An error is one object with its message and nothing else exactly if the message fits
and the reader of the arguments stops behind them. -/
theorem error_object_iff (hj : r.optJson = true) (strerror : Strerror) (status : ℤ) {errnum : ℤ}
    (he : 0 ≤ errnum) {message : List Char} (hm : Clean message) (beyond : List VarArg) :
    EmitsError (pingError strerror r {} status errnum (.ofText message hm) beyond)
        (errorValue strerror errnum message) ↔
      (utf8 message).length < pingErrorMax ∧ (errnum = 0 ∨ beyond.head? = some .null) :=
  ⟨conditions_of_emits hj strerror status he hm,
    fun h => emits_of_conditions hj strerror status he hm h.1 h.2⟩

/-- The texts of a system that says the same for every number. -/
def sampleStrerror : Strerror where
  text := fun _ => "Message too long".toList
  clean := fun _ => by decide +kernel
  short := fun _ => by decide +kernel

theorem error_object_sendmsg :
    EmitsError (pingError sampleStrerror { optJson := true } {} 0 90
      (.ofText "sendmsg".toList (by decide +kernel)) [.null])
      (.arr [.str "sendmsg".toList, .str "Message too long".toList]) :=
  (@error_object_iff { optJson := true } rfl sampleStrerror 0 90 (by decide) "sendmsg".toList
    (by decide +kernel) [.null]).mpr ⟨by decide +kernel, .inr rfl⟩

/-- With a third pointer in the register behind the arguments the array has one element
more, or the program reads memory that is not there. -/
theorem no_terminator :
    ¬ EmitsError (pingError sampleStrerror { optJson := true } {} 0 90
      (.ofText "sendmsg".toList (by decide +kernel)) [.wild])
      (errorValue sampleStrerror 90 "sendmsg".toList) := by
  rintro ⟨e, line, h, -⟩
  have hwild : (pingError sampleStrerror { optJson := true } {} 0 90
      (.ofText "sendmsg".toList (by decide +kernel)) [.wild]).toOption.isNone = true := by
    decide +kernel
  rw [h] at hwild
  cases hwild

end Law

end Iputils.JsonErrors
