import Iputils.JsonErrors

/-!
# Strings in JSON

`json_kv_str` and `json_kv_array` put strings between quotes as they are. Values come
from the command line, from name servers and from messages that quote either. The result
says that the strings of a line are read back exactly if they are UTF-8 without quotes,
backslashes and control characters; a message must fit its buffer too, and the reader of
an array must find a NULL behind strings of the same kind.
-/
set_option autoImplicit false

namespace Iputils.JsonStrings
open PrintfText PingState JsonText PingJson JsonPacket JsonBounds PingOutput JsonReading Utf8Text
  JsonBytes JsonErrors

section Packets

/-- A call of `construct_json` with its strings as bytes. -/
inductive ByteCall
  | str (key : Key) (val : CString)
  | int (key : Key) (val : Int32)
  | uint (key : Key) (val : UInt32)
  | arr (key : Key) (vals : List CString)

def keyString (k : Key) : String := String.ofList k.text

def ByteCall.call : ByteCall → JsonCall
  | .str key val => .str (keyString key) val.chars
  | .int key val => .int (keyString key) val
  | .uint key val => .uint (keyString key) val
  | .arr key vals => .arr (keyString key) (vals.map CString.chars)

/-- The member that the call stands for. -/
def ByteCall.entry : ByteCall → ByteEntry
  | .str key val => ⟨key, .str val.bytes⟩
  | .int key val => ⟨key, .num val.toInt⟩
  | .uint key val => ⟨key, .num val.toNat⟩
  | .arr key vals => ⟨key, .arr (vals.map CString.bytes)⟩

/-- The packet is printed as one line, and all of its strings are read back. -/
def Survives (r : Rts) (calls : List ByteCall) : Prop :=
  ∃ line ms, emitPacket r {} (calls.map ByteCall.call) = .ok (line ++ ['\n'], {}) ∧
    ReadsAs (lineBytes line) (.obj ms) ∧
    List.Forall₂ ByteEntry.Reads (calls.map ByteCall.entry) ms

def ByteCall.text (c : ByteCall) : List Char := (jsonTexts c.call).flatten

/-- What the buffer holds after these calls. -/
def callsText (calls : List ByteCall) : List Char := '\x7b' :: joined (calls.map ByteCall.text)

theorem keyText_key (k : Key) : keyText (keyString k) = k.front := by
  have hlist : (keyString k).toList = k.text := String.toList_ofList
  unfold keyText
  rw [hlist]
  rfl

theorem lineBytes_joined (us : List (List Char)) :
    lineBytes (joined us) = joinedBytes (us.map lineBytes) := by
  cases us with
  | nil => rfl
  | cons u us =>
      unfold joined
      rw [lineBytes_append, List.map_cons, joinedBytes]
      congr 1
      induction us with
      | nil => rfl
      | cons v us ih =>
          rw [List.flatMap_cons, lineBytes_append, List.map_cons, List.flatMap_cons, ih]
          rfl

theorem elementTexts_flatten (vals : List (List Char)) (count : ℕ) :
    (elementTexts (count + 1) vals).flatten = vals.flatMap fun v => ',' :: ' ' :: quoted v := by
  induction vals generalizing count with
  | nil => rfl
  | cons v vals ih =>
      rw [elementTexts, if_pos (Nat.succ_pos count), List.flatten_append, ih, List.flatMap_cons]
      simp [quoted]

theorem elementTexts_joined (vals : List (List Char)) :
    (elementTexts 0 vals).flatten = joined (vals.map quoted) := by
  cases vals with
  | nil => rfl
  | cons v vals =>
      rw [elementTexts, if_neg (Nat.lt_irrefl 0), List.flatten_append, elementTexts_flatten,
        List.map_cons, joined, List.flatMap_map]
      simp [quoted]

theorem text_str (key : Key) (val : CString) :
    (ByteCall.str key val).text = key.front ++ quoted val.chars := by
  simp [ByteCall.text, ByteCall.call, jsonTexts, strText, keyText_key, quoted]

theorem text_arr (key : Key) (vals : List CString) :
    (ByteCall.arr key vals).text =
      key.front ++ '[' :: (joined ((vals.map CString.chars).map quoted) ++ [']']) := by
  simp [ByteCall.text, ByteCall.call, jsonTexts, keyText_key, elementTexts_joined]

/-- A call appends the bytes of its member. -/
theorem lineBytes_text (c : ByteCall) : lineBytes c.text = c.entry.bytes := by
  cases c with
  | str key val =>
      rw [text_str, lineBytes_append, lineBytes_quoted]
      rfl
  | int key val =>
      have htext : (ByteCall.int key val).text = key.front ++ decText val.toInt := by
        simp [ByteCall.text, ByteCall.call, jsonTexts, intText, keyText_key, i32_toInt]
      rw [htext, lineBytes_append]
      rfl
  | uint key val =>
      have htext : (ByteCall.uint key val).text = key.front ++ decText val.toNat := by
        simp [ByteCall.text, ByteCall.call, jsonTexts, intText, keyText_key, u32_toNat]
      rw [htext, lineBytes_append]
      rfl
  | arr key vals =>
      have hmap : ((vals.map CString.chars).map quoted).map lineBytes =
          (vals.map CString.bytes).map quotedBytes := by
        rw [List.map_map, List.map_map, List.map_map]
        exact List.map_congr_left fun v _ => lineBytes_quoted v
      have hjoined := lineBytes_joined ((vals.map CString.chars).map quoted)
      rw [hmap] at hjoined
      rw [text_arr, lineBytes_append]
      change key.front.map charByte ++ charByte '[' ::
        lineBytes (joined ((vals.map CString.chars).map quoted) ++ [']']) = _
      rw [lineBytes_append, hjoined]
      rfl

theorem lineBytes_calls (calls : List ByteCall) :
    lineBytes (callsText calls ++ ['\x7d']) = objectBytes (calls.map ByteCall.entry) := by
  have hmap : (calls.map ByteCall.text).map lineBytes =
      (calls.map ByteCall.entry).map ByteEntry.bytes := by
    rw [List.map_map, List.map_map]
    exact List.map_congr_left fun c _ => lineBytes_text c
  have hjoined := lineBytes_joined (calls.map ByteCall.text)
  rw [hmap] at hjoined
  rw [lineBytes_append]
  change charByte '\x7b' :: lineBytes (joined (calls.map ByteCall.text)) ++ _ = _
  rw [hjoined]
  rfl

theorem length_calls (calls : List ByteCall) :
    (callsText calls).length + 1 = (objectBytes (calls.map ByteCall.entry)).length := by
  rw [← lineBytes_calls, length_lineBytes, List.length_append, List.length_singleton]

variable {r : Rts}

theorem pieces_json (hj : r.optJson = true) (begun : Bool) (call : JsonCall) :
    BufferCall.pieces r begun (.json call) = texts (opener begun :: jsonTexts call) := by
  unfold BufferCall.pieces
  rw [if_neg (by rw [hj]; decide)]

theorem full_texts (us : List (List Char)) : (texts us).flatMap Piece.full = us.flatten := by
  induction us with
  | nil => rfl
  | cons u us ih =>
      change u ++ (texts us).flatMap Piece.full = _
      rw [ih, List.flatten_cons]

theorem runPieces_begun (hj : r.optJson = true) (calls : List ByteCall) :
    (runPieces true (calls.map fun c => (r, .json c.call))).flatMap Piece.full =
      (calls.map ByteCall.text).flatMap fun u => ',' :: ' ' :: u := by
  induction calls with
  | nil => rfl
  | cons c calls ih =>
      rw [List.map_cons, runPieces]
      dsimp only
      rw [pieces_json hj, List.flatMap_append, full_texts, Bool.true_or, ih, List.map_cons,
        List.flatMap_cons]
      rfl

theorem runText_calls (hj : r.optJson = true) {calls : List ByteCall} (hne : calls ≠ []) :
    runText (calls.map fun c => (r, .json c.call)) = callsText calls := by
  obtain ⟨c, calls, rfl⟩ := List.exists_cons_of_ne_nil hne
  unfold runText
  rw [List.map_cons, runPieces]
  dsimp only
  rw [pieces_json hj, List.flatMap_append, full_texts]
  have hbegun : (false || !(texts (opener false :: jsonTexts c.call)).isEmpty) = true := rfl
  rw [hbegun, runPieces_begun hj, callsText, List.map_cons, joined]
  rfl

/-- A packet that fits is printed whole. -/
theorem emitPacket_calls (hj : r.optJson = true) {calls : List ByteCall} (hne : calls ≠ [])
    (hfit : (objectBytes (calls.map ByteCall.entry)).length ≤ pingJsonMax) :
    emitPacket r {} (calls.map ByteCall.call) = .ok (callsText calls ++ ['\x7d', '\n'], {}) := by
  have hlen : (callsText calls).length < pingJsonMax := by
    rw [← length_calls] at hfit
    omega
  have hrun : runCalls {} (calls.map fun c => (r, .json c.call)) =
      .ok (.ofText (callsText calls)) := by
    rw [← runText_calls hj hne] at hlen ⊢
    rw [runCalls_eq held_empty]
    exact (pieces_fit (t := []) hlen).1
  have hfold : (calls.map ByteCall.call).foldlM (constructJson r) {} =
      runCalls {} (calls.map fun c => (r, .json c.call)) := by
    unfold runCalls
    rw [List.foldlM_map, List.foldlM_map]
    rfl
  unfold emitPacket
  rw [hfold, hrun, ok_bind]
  unfold printJsonPacket
  rw [if_pos ⟨hj, List.cons_ne_nil _ _⟩]
  rfl

theorem survives_iff (hj : r.optJson = true) {calls : List ByteCall} (hne : calls ≠ [])
    (hfit : (objectBytes (calls.map ByteCall.entry)).length ≤ pingJsonMax) :
    Survives r calls ↔ ∀ c ∈ calls, c.entry.value.Clean := by
  have hne' : calls.map ByteCall.entry ≠ [] := by simpa using hne
  have hall : (∀ c ∈ calls, c.entry.value.Clean) ↔
      ∀ e ∈ calls.map ByteCall.entry, e.value.Clean := by simp
  have hsplit : callsText calls ++ ['\x7d', '\n'] = (callsText calls ++ ['\x7d']) ++ ['\n'] := by
    simp
  rw [hall, ← readsAs_object hne', ← lineBytes_calls]
  unfold Survives
  rw [emitPacket_calls hj hne hfit, hsplit]
  constructor
  · rintro ⟨line, ms, hline, hreads, hms⟩
    have hout := List.append_cancel_right (Prod.mk.inj (Except.ok.inj hline)).1
    rw [← hout] at hreads
    exact ⟨ms, hreads, hms⟩
  · rintro ⟨ms, hreads, hms⟩
    exact ⟨_, ms, rfl, hreads, hms⟩

end Packets

section Errors

/-- The strings that the reader of an array takes before it ends. -/
def argTexts : List VarArg → List CString
  | .text s :: args => s :: argTexts args
  | _ => []

/-- The list has a NULL behind these strings. -/
def Terminated : List VarArg → Prop
  | .text _ :: args => Terminated args
  | .null :: _ => True
  | _ => False

/-- The call that an error makes. -/
def errorCall (strerror : Strerror) (errnum : ℤ) (msg : CString) (beyond : List VarArg) :
    ByteCall :=
  if errnum = 0 then .str errorKey msg
  else .arr errorKey (msg :: strerror.result errnum :: argTexts beyond)

/-- The error is printed as one line, and its strings are read back. -/
def ErrorSurvives (strerror : Strerror) (r : Rts) (status errnum : ℤ) (msg : CString)
    (beyond : List VarArg) : Prop :=
  ∃ e line ms, pingError strerror r {} status errnum msg beyond = .ok e ∧
    e.out = line ++ ['\n'] ∧ ReadsAs (lineBytes line) (.obj ms) ∧
    List.Forall₂ ByteEntry.Reads [(errorCall strerror errnum msg beyond).entry] ms

/-- The bytes of the object that the calls build. -/
def callBytes (calls : List ByteCall) : List UInt8 := objectBytes (calls.map ByteCall.entry)

/-- What a message has to be like. -/
structure Sound (errnum : ℤ) (msg : CString) (beyond : List VarArg) : Prop where
  clean : CleanBytes msg.bytes
  short : msg.bytes.length < pingErrorMax
  ends : errnum = 0 ∨
    0 < errnum ∧ Terminated beyond ∧ ∀ s ∈ argTexts beyond, CleanBytes s.bytes

theorem argTexts_terminated (extras : List CString) (rest : List VarArg) :
    argTexts (extras.map .text ++ .null :: rest) = extras ∧
      Terminated (extras.map .text ++ .null :: rest) := by
  induction extras with
  | nil => exact ⟨rfl, trivial⟩
  | cons s extras ih =>
      rw [List.map_cons, List.cons_append]
      exact ⟨congrArg (s :: ·) ih.1, ih.2⟩

theorem exists_of_terminated {args : List VarArg} (h : Terminated args) :
    ∃ rest, args = (argTexts args).map .text ++ .null :: rest := by
  induction args with
  | nil => exact h.elim
  | cons arg args ih =>
      cases arg with
      | null => exact ⟨args, rfl⟩
      | wild => exact h.elim
      | text s =>
          obtain ⟨rest, hrest⟩ := ih h
          exact ⟨rest, congrArg (VarArg.text s :: ·) hrest⟩

theorem keyString_error : keyString errorKey = "error" := String.ofList_toList

variable {r : Rts}

/-- A call that fits leaves its object in the buffer. -/
theorem constructJson_fit (hj : r.optJson = true) {c : ByteCall}
    (hfit : (callBytes [c]).length ≤ pingJsonMax) :
    constructJson r {} c.call = .ok (.ofText (callsText [c])) := by
  have hlen := length_calls [c]
  have hflat : (['\x7b'] :: jsonTexts c.call).flatten = callsText [c] := by
    simp [callsText, joined, ByteCall.text]
  have hfitted := @appendAll_of_fit [] (['\x7b'] :: jsonTexts c.call) (by
    rw [hflat, List.length_nil]
    unfold callBytes at hfit
    omega)
  rw [hflat] at hfitted
  rw [constructJson_texts hj]
  exact hfitted

/-- The error as the print of its object, if the reader of the array ends. -/
theorem pingError_ok (hj : r.optJson = true) {strerror : Strerror} {status errnum : ℤ}
    {msg : CString} {beyond : List VarArg}
    (hfit : (callBytes [errorCall strerror errnum (msg.truncated pingErrorMax) beyond]).length ≤
      pingJsonMax) (hends : errnum = 0 ∨ 0 < errnum ∧ Terminated beyond) :
    pingError strerror r {} status errnum msg beyond = .ok (emission r status
      (.ofText (callsText [errorCall strerror errnum (msg.truncated pingErrorMax) beyond]))) := by
  obtain rfl | ⟨hpos, hterminated⟩ := hends
  · have hcall := constructJson_fit hj hfit
    unfold errorCall at hcall ⊢
    rw [if_pos rfl] at hcall ⊢
    unfold ByteCall.call at hcall
    dsimp only at hcall
    rw [keyString_error] at hcall
    rw [pingError_zero hj, hcall]
    rfl
  · have hcall := constructJson_fit hj hfit
    obtain ⟨rest, hrest⟩ := exists_of_terminated hterminated
    have harray := constructJsonArray_texts r {} "error"
      (msg.truncated pingErrorMax :: strerror.result errnum :: argTexts beyond) rest
    rw [List.map_cons, List.map_cons, List.cons_append, List.cons_append, ← hrest] at harray
    unfold errorCall at hcall ⊢
    rw [if_neg hpos.ne'] at hcall ⊢
    unfold ByteCall.call at hcall
    dsimp only at hcall
    rw [keyString_error] at hcall
    rw [pingError_pos hj strerror status hpos, harray, hcall]
    rfl

/-- An error that is printed has a number, or none, and then a NULL behind the arguments. -/
theorem ends_of_ok (hj : r.optJson = true) {strerror : Strerror} {status errnum : ℤ}
    {msg : CString} {beyond : List VarArg} {e : Emission}
    (h : pingError strerror r {} status errnum msg beyond = .ok e) :
    errnum = 0 ∨ 0 < errnum ∧ Terminated beyond := by
  by_cases hzero : errnum = 0
  · exact .inl hzero
  · by_cases hpos : 0 < errnum
    · rw [pingError_pos hj strerror status hpos] at h
      obtain ⟨b, hb, -⟩ := bind_ok h
      obtain ⟨extras, rest, rfl, -⟩ := array_ok hj hb
      exact .inr ⟨hpos, (argTexts_terminated extras rest).2⟩
    · unfold pingError constructJsonError at h
      rw [if_pos hj, if_pos (by omega)] at h
      cases h

theorem callsText_str (s : CString) :
    callsText [.str errorKey s] = errorFront ++ quoted s.chars := by
  have hone : callsText [.str errorKey s] = '\x7b' :: (ByteCall.str errorKey s).text := by
    simp [callsText, joined]
  rw [hone, text_str]
  rfl

theorem callsText_arr (s : CString) (vals : List CString) : ∃ z,
    callsText [.arr errorKey (s :: vals)] = errorFront ++ '[' :: (quoted s.chars ++ z) := by
  have hone : callsText [.arr errorKey (s :: vals)] =
      '\x7b' :: (ByteCall.arr errorKey (s :: vals)).text := by simp [callsText, joined]
  rw [hone, text_arr, List.map_cons, List.map_cons, joined]
  refine ⟨((vals.map CString.chars).map quoted).flatMap (fun u => ',' :: ' ' :: u) ++ [']'], ?_⟩
  simp [errorFront]

/-- A first element is read, perhaps with more behind it, only if nothing more is there. -/
theorem read_element {cs message rest : List Char} {n : ℕ} {s more z : List UInt8}
    {vs : List Json} (hcs : utf8 cs = charByte '[' :: (quotedBytes s ++ z))
    (hmessage : utf8 message = s ++ more)
    (h : parseValue n cs = some (.arr (.str message :: vs), rest)) : more = [] := by
  obtain ⟨cs₁, rfl, h₁⟩ := decode_char (d := '[') (by decide) hcs
  obtain ⟨t, cs₂, rfl, rfl, -⟩ := decode_quoted h₁
  obtain ⟨d, rfl, rfl⟩ := utf8_front hmessage.symm
  obtain ⟨k, vs', hvs, helements⟩ := parseValue_array h
  obtain rfl := Json.arr.inj hvs
  rw [(parseElements_front helements).2.1]
  rfl

theorem reads_error {strerror : Strerror} {errnum : ℤ} {msg : CString} {beyond : List VarArg}
    {ms : List (List Char × Json)}
    (h : List.Forall₂ ByteEntry.Reads [(errorCall strerror errnum msg beyond).entry] ms) :
    ∃ v, ms = [("error".toList, v)] ∧
      (errorCall strerror errnum msg beyond).entry.value.Reads v := by
  have hkey : (errorCall strerror errnum msg beyond).entry.key.text = "error".toList := by
    unfold errorCall
    split_ifs <;> rfl
  cases h with
  | cons hm hms =>
      cases hms
      obtain ⟨hm, hv⟩ := hm
      exact ⟨_, by rw [← hkey, ← hm], hv⟩

/-- A message that has been cut off is not read back. -/
theorem short_of_survives (hj : r.optJson = true) {strerror : Strerror} {status errnum : ℤ}
    {msg : CString} {beyond : List VarArg}
    (hfit : (callBytes [errorCall strerror errnum (msg.truncated pingErrorMax) beyond]).length ≤
      pingJsonMax) (h : ErrorSurvives strerror r status errnum msg beyond) :
    msg.bytes.length < pingErrorMax := by
  obtain ⟨e, line, ms, hresult, hout, hreads, hms⟩ := h
  have hbytes := bytes_truncated msg
  have hends := ends_of_ok hj hresult
  rw [pingError_ok hj hfit hends] at hresult
  obtain rfl := Except.ok.inj hresult
  obtain rfl := line_of_emission hj (b := .ofText (callsText _)) (List.cons_ne_nil _ _) hout
  obtain ⟨v, rfl, hv⟩ := reads_error hms
  change ReadsAs (lineBytes (callsText _ ++ _)) _ at hreads
  obtain rfl | ⟨hpos, -⟩ := hends
  · obtain ⟨s, rfl, hs⟩ := hv
    unfold errorCall at hreads
    rw [if_pos rfl, callsText_str, List.append_assoc] at hreads
    obtain ⟨cs, n, rest, hcs, hread⟩ := readsAs_error hreads (.inl (quoted_head _ _))
    rw [lineBytes_append, lineBytes_quoted] at hcs
    exact short_of_drop (read_string hcs (hs.trans hbytes) hread)
  · unfold errorCall at hreads hv
    rw [if_neg hpos.ne'] at hreads hv
    obtain ⟨z, hz⟩ := callsText_arr (msg.truncated pingErrorMax)
      (strerror.result errnum :: argTexts beyond)
    obtain ⟨ss, rfl, hss⟩ := hv
    rw [hz, List.append_assoc] at hreads
    obtain ⟨cs, n, rest, hcs, hread⟩ := readsAs_error hreads (.inr rfl)
    cases ss with
    | nil => cases hss
    | cons s ss =>
        have hshape :
            lineBytes ('[' :: (quoted (msg.truncated pingErrorMax).chars ++ z) ++ ['\x7d']) =
            charByte '[' :: (quotedBytes (msg.truncated pingErrorMax).bytes ++
              lineBytes (z ++ ['\x7d'])) := by
          rw [← lineBytes_quoted, ← lineBytes_append]
          simp [lineBytes]
        rw [hshape] at hcs
        exact short_of_drop (read_element hcs ((List.cons.inj hss).1.trans hbytes) hread)

theorem clean_errorCall (strerror : Strerror) {errnum : ℤ} {msg : CString}
    {beyond : List VarArg} :
    (errorCall strerror errnum msg beyond).entry.value.Clean ↔ CleanBytes msg.bytes ∧
      (errnum = 0 ∨ ∀ s ∈ argTexts beyond, CleanBytes s.bytes) := by
  unfold errorCall
  by_cases hzero : errnum = 0
  · rw [if_pos hzero]
    exact ⟨fun h => ⟨h, .inl hzero⟩, fun h => h.1⟩
  · have hresult : CleanBytes (strerror.result errnum).bytes := ⟨_, rfl, strerror.clean errnum⟩
    rw [if_neg hzero]
    change (∀ v ∈ (msg :: strerror.result errnum :: argTexts beyond).map CString.bytes,
      CleanBytes v) ↔ _
    rw [List.forall_mem_map, List.forall_mem_cons, List.forall_mem_cons]
    exact ⟨fun h => ⟨h.1, .inr h.2.2⟩, fun h => ⟨h.1, hresult, h.2.resolve_left hzero⟩⟩

/-- The line of a message that fits is the object of its call. -/
theorem error_line_iff (hj : r.optJson = true) {strerror : Strerror} {status errnum : ℤ}
    {msg : CString} {beyond : List VarArg}
    (hfit : (callBytes [errorCall strerror errnum (msg.truncated pingErrorMax) beyond]).length ≤
      pingJsonMax) (hends : errnum = 0 ∨ 0 < errnum ∧ Terminated beyond)
    (hshort : msg.bytes.length < pingErrorMax) :
    ErrorSurvives strerror r status errnum msg beyond ↔
      (errorCall strerror errnum msg beyond).entry.value.Clean := by
  have hok : pingError strerror r {} status errnum msg beyond = .ok _ := pingError_ok hj hfit hends
  rw [truncated_of_short hshort] at hok
  have hout := (emission_out hj status
    (b := .ofText (callsText [errorCall strerror errnum msg beyond])) (List.cons_ne_nil _ _)).1
  have hbytes := lineBytes_calls [errorCall strerror errnum msg beyond]
  have hobject := readsAs_object
    (List.cons_ne_nil (errorCall strerror errnum msg beyond).entry [])
  rw [List.forall_mem_singleton] at hobject
  rw [← hobject]
  constructor
  · rintro ⟨e, line, ms, hresult, hline, hreads, hms⟩
    rw [hok] at hresult
    obtain rfl := Except.ok.inj hresult
    obtain rfl := line_of_emission hj
      (b := .ofText (callsText [errorCall strerror errnum msg beyond])) (List.cons_ne_nil _ _) hline
    exact ⟨ms, hbytes ▸ hreads, hms⟩
  · rintro ⟨ms, hreads, hms⟩
    refine ⟨_, callsText [errorCall strerror errnum msg beyond] ++ ['\x7d'], ms, hok, ?_,
      hbytes ▸ hreads, hms⟩
    rw [hout]
    change callsText _ ++ _ = _
    simp

theorem error_survives_iff (hj : r.optJson = true) (strerror : Strerror) (status errnum : ℤ)
    (msg : CString) (beyond : List VarArg)
    (hfit : (callBytes [errorCall strerror errnum (msg.truncated pingErrorMax) beyond]).length ≤
      pingJsonMax) :
    ErrorSurvives strerror r status errnum msg beyond ↔ Sound errnum msg beyond := by
  constructor
  · intro h
    have hshort := short_of_survives hj hfit h
    have hends : errnum = 0 ∨ 0 < errnum ∧ Terminated beyond := by
      obtain ⟨e, line, ms, hresult, -⟩ := h
      exact ends_of_ok hj hresult
    obtain ⟨hmsg, hargs⟩ :=
      (clean_errorCall strerror).mp ((error_line_iff hj hfit hends hshort).mp h)
    refine ⟨hmsg, hshort, ?_⟩
    obtain rfl | ⟨hpos, hterminated⟩ := hends
    · exact .inl rfl
    · exact .inr ⟨hpos, hterminated, hargs.resolve_left hpos.ne'⟩
  · rintro ⟨hmsg, hshort, hsound⟩
    have hends : errnum = 0 ∨ 0 < errnum ∧ Terminated beyond :=
      hsound.imp_right fun h => ⟨h.1, h.2.1⟩
    exact (error_line_iff hj hfit hends hshort).mpr
      ((clean_errorCall strerror).mpr ⟨hmsg, hsound.imp_right fun h => h.2.2⟩)

/-- In a line that fits, the strings are read back exactly if they are clean; those of
an error also have to be complete. -/
theorem strings_survive_iff (hj : r.optJson = true) :
    (∀ calls : List ByteCall, calls ≠ [] → (callBytes calls).length ≤ pingJsonMax →
      (Survives r calls ↔ ∀ c ∈ calls, c.entry.value.Clean)) ∧
    ∀ (strerror : Strerror) (status errnum : ℤ) (msg : CString) (beyond : List VarArg),
      (callBytes [errorCall strerror errnum (msg.truncated pingErrorMax) beyond]).length ≤
        pingJsonMax →
      (ErrorSurvives strerror r status errnum msg beyond ↔ Sound errnum msg beyond) :=
  ⟨fun _ hne hfit => survives_iff hj hne hfit,
    fun strerror status errnum msg beyond hfit =>
      error_survives_iff hj strerror status errnum msg beyond hfit⟩

theorem clean_host : Clean "host".toList := by decide +kernel

theorem ascii_host : ∀ c ∈ "host".toList, Ascii c := by decide +kernel

def hostPacket (host : CString) : List ByteCall :=
  [.str ⟨"host".toList, clean_host, ascii_host⟩ host]

theorem strings_survive_host :
    Survives { optJson := true } (hostPacket (.ofText "localhost".toList (by decide +kernel))) := by
  refine ((strings_survive_iff (r := { optJson := true }) rfl).1 _ (List.cons_ne_nil _ _)
    (by decide +kernel)).mpr fun c hc => ?_
  obtain rfl := List.mem_singleton.mp hc
  exact ⟨_, rfl, by decide +kernel⟩

/-- What `fill` says about the pattern `"`. -/
def patternMessage : CString :=
  ⟨utf8 "patterns must be specified as hex digits: \"".toList, by decide +kernel⟩

theorem quote_not_survives :
    (callBytes [errorCall sampleStrerror 0 (patternMessage.truncated pingErrorMax)
        [.null]]).length ≤ pingJsonMax ∧
      ¬ ErrorSurvives sampleStrerror { optJson := true } 2 0 patternMessage [.null] := by
  have hfit : (callBytes [errorCall sampleStrerror 0 (patternMessage.truncated pingErrorMax)
      [.null]]).length ≤ pingJsonMax := by decide +kernel
  refine ⟨hfit, fun h => ?_⟩
  obtain ⟨s, hs, hclean⟩ :=
    ((error_survives_iff (r := { optJson := true }) rfl sampleStrerror 2 0 patternMessage
      [.null] hfit).mp h).clean
  have hquote : '"' ∈ s := mem_of_charByte (by decide) (by rw [hs]; decide +kernel)
  exact (hclean '"' hquote).2.1 rfl

end Errors

end Iputils.JsonStrings
