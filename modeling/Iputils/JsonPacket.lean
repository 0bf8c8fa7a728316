import Iputils.PingFinish

/-!
# The JSON object of one packet

`construct_json` adds one member at a time to the packet buffer. Whether a call
opens the object or continues it is decided by the first byte of the buffer
alone, so `print_json_packet` has to leave that byte zero. A packet is the list
of calls between two prints. The round trip is stated for lists of packets: what
is printed for one of them is a function of its own calls.
-/
set_option autoImplicit false

namespace Iputils.JsonPacket
open MachineInt PingState PrintfText JsonText PingJson PingFinish

/-- A call of `construct_json`, by its `ptype`. As in the buffers, a `Char` of a value
stands for one byte. -/
inductive JsonCall
  | str (key : String) (val : List Char)
  | int (key : String) (val : Int32)
  | uint (key : String) (val : UInt32)
  | arr (key : String) (vals : List (List Char))

def jsonKvUint (b : JsonBuffer) (key : String) (val : ℤ) : Except JsonFault JsonBuffer :=
  jsonAppend b (intText key (u32 val))

/-- The loop over the arguments of `json_kv_array`, with its `count`. -/
def jsonElements (b : JsonBuffer) (count : ℕ) : List (List Char) → Except JsonFault JsonBuffer
  | [] => .ok b
  | val :: vals => do
      let b ← if count > 0 then jsonContinue b else pure b
      let b ← jsonAppend b ('"' :: val ++ ['"'])
      jsonElements b (count + 1) vals

def jsonKvArray (b : JsonBuffer) (key : String) (vals : List (List Char)) :
    Except JsonFault JsonBuffer := do
  let b ← jsonAppend b (keyText key ++ ['['])
  let b ← jsonElements b 0 vals
  jsonAppend b [']']

def constructJson (r : Rts) (b : JsonBuffer) (call : JsonCall) : Except JsonFault JsonBuffer :=
  if r.optJson = false then .ok b
  else do
    let b ← jsonBegin b
    match call with
    | .arr key vals => jsonKvArray b key vals
    | .str key val => jsonKvStr b key val
    | .int key val => jsonKvInt b key val.toInt
    | .uint key val => jsonKvUint b key val.toNat

/-- What is printed, and the buffer afterwards. -/
def printJsonPacket (r : Rts) (b : JsonBuffer) : List Char × JsonBuffer :=
  if r.optJson = true ∧ b.object ≠ [] then (b.object ++ ['\x7d', '\n'], {}) else ([], b)

/-- The calls of one packet and the print that ends it. -/
def emitPacket (r : Rts) (b : JsonBuffer) (calls : List JsonCall) :
    Except JsonFault (List Char × JsonBuffer) := do
  let b ← calls.foldlM (constructJson r) b
  pure (printJsonPacket r b)

/-- What each packet of a run prints, and the buffer at the end. -/
def emitPackets (r : Rts) (b : JsonBuffer) :
    List (List JsonCall) → Except JsonFault (List (List Char) × JsonBuffer)
  | [] => .ok ([], b)
  | calls :: rest => do
      let (out, b) ← emitPacket r b calls
      let (outs, b) ← emitPackets r b rest
      pure (out :: outs, b)

/-- A call whose member is read back: a scalar with clean texts. -/
def JsonCall.Plain : JsonCall → Prop
  | .str key val => Clean key.toList ∧ Clean val
  | .int key _ => Clean key.toList
  | .uint key _ => Clean key.toList
  | .arr _ _ => False

instance (call : JsonCall) : Decidable call.Plain := by
  cases call <;> unfold JsonCall.Plain <;> infer_instance

def JsonCall.text : JsonCall → List Char
  | .str key val => strText key val
  | .int key val => intText key val.toInt
  | .uint key val => intText key val.toNat
  | .arr key _ => keyText key

def JsonCall.pair : JsonCall → List Char × Json
  | .str key val => (key.toList, .str val)
  | .int key val => (key.toList, .num (decText val.toInt))
  | .uint key val => (key.toList, .num (decText val.toNat))
  | .arr key _ => (key.toList, .null)

/-- The members that follow an earlier one. -/
def moreTexts (calls : List JsonCall) : List Char :=
  (calls.map fun call => ", ".toList ++ call.text).flatten

/-- The contents of the buffer after these calls. -/
def objectText : List JsonCall → List Char
  | [] => []
  | call :: calls => '\x7b' :: call.text ++ moreTexts calls

/-- Printable packets: plain calls whose object leaves room in the buffer. -/
structure Printable (calls : List JsonCall) : Prop where
  plain : ∀ call ∈ calls, call.Plain
  fits : (objectText calls).length ≤ pingJsonMax - 2

/-- One line that is an object with exactly these members. -/
def EmitsObject (out : List Char) (pairs : List (List Char × Json)) : Prop :=
  ∃ line, out = line ++ ['\n'] ∧ '\n' ∉ line ∧ parse line = some (.obj pairs)

theorem i32_toInt (x : Int32) : i32 x.toInt = x.toInt := by
  have h₀ := x.minValue_le_toInt
  have h₁ := x.toInt_le
  simp only [Int32.toInt_minValue, Int32.toInt_maxValue] at h₀ h₁
  exact i32_of_mem (by omega) (by unfold intMax; omega)

theorem u32_toNat (x : UInt32) : u32 x.toNat = x.toNat := by
  have h := x.toNat_lt
  unfold u32
  omega

/-- Behind the separator or the brace, a plain call appends its text. -/
theorem constructJson_eq {r : Rts} (hj : r.optJson = true) (b : JsonBuffer) {call : JsonCall}
    (hp : call.Plain) :
    constructJson r b call = (jsonBegin b >>= fun b => appendAll b [call.text]) := by
  unfold constructJson
  rw [if_neg (by simp [hj])]
  cases call with
  | str key val => simp only [jsonKvStr_eq, JsonCall.text]
  | int key val => simp only [jsonKvInt, i32_toInt, jsonAppend_eq, JsonCall.text]
  | uint key val => simp only [jsonKvUint, u32_toNat, jsonAppend_eq, JsonCall.text]
  | arr key vals => exact hp.elim

theorem constructJson_first {r : Rts} (hj : r.optJson = true) {call : JsonCall}
    (hp : call.Plain) (hfit : (objectText [call]).length < pingJsonMax) :
    constructJson r {} call = .ok (.ofText (objectText [call])) := by
  have hbegin : jsonBegin {} = .ok (.ofText ['\x7b']) := rfl
  have htext : objectText [call] = ['\x7b'] ++ [call.text].flatten := by
    simp [objectText, moreTexts]
  rw [htext, List.length_append] at hfit
  rw [constructJson_eq hj {} hp, hbegin, ok_bind, appendAll_of_fit hfit, htext]

theorem constructJson_more {r : Rts} (hj : r.optJson = true) {t : List Char} (ht : t ≠ [])
    {call : JsonCall} (hp : call.Plain)
    (hfit : t.length + (", ".toList ++ call.text).length < pingJsonMax) :
    constructJson r (.ofText t) call = .ok (.ofText (t ++ (", ".toList ++ call.text))) := by
  have hbegin : jsonBegin (.ofText t) = appendAll (.ofText t) [", ".toList] := by
    rw [← jsonContinue_eq]
    exact if_pos ht
  rw [constructJson_eq hj _ hp, hbegin, appendAll_bind,
    appendAll_of_fit (by simpa using hfit)]
  simp

/-- Further calls extend the object, as long as the whole of it fits. -/
theorem foldlM_constructJson {r : Rts} (hj : r.optJson = true) {calls : List JsonCall}
    (hp : ∀ call ∈ calls, call.Plain) {t : List Char} (ht : t ≠ [])
    (hfit : (t ++ moreTexts calls).length < pingJsonMax) :
    calls.foldlM (constructJson r) (.ofText t) = .ok (.ofText (t ++ moreTexts calls)) := by
  induction calls generalizing t with
  | nil => simp [moreTexts, pure, Except.pure]
  | cons call calls ih =>
      have hcall := hp call List.mem_cons_self
      have hrest : ∀ c ∈ calls, c.Plain := fun c hc => hp c (List.mem_cons_of_mem call hc)
      have hassoc : t ++ moreTexts (call :: calls) =
          t ++ (", ".toList ++ call.text) ++ moreTexts calls := by simp [moreTexts]
      rw [hassoc] at hfit ⊢
      have hone : t.length + (", ".toList ++ call.text).length < pingJsonMax := by
        simp only [List.length_append] at hfit ⊢
        omega
      rw [List.foldlM_cons, constructJson_more hj ht hcall hone, ok_bind]
      exact ih hrest (by simp [ht]) hfit

theorem foldlM_constructJson_empty {r : Rts} (hj : r.optJson = true) {calls : List JsonCall}
    (h : Printable calls) :
    calls.foldlM (constructJson r) {} = .ok (.ofText (objectText calls)) := by
  obtain ⟨hp, hfit⟩ := h
  cases calls with
  | nil => rfl
  | cons call calls =>
      have hsplit : objectText (call :: calls) = objectText [call] ++ moreTexts calls := by
        simp [objectText, moreTexts]
      rw [hsplit] at hfit ⊢
      unfold pingJsonMax at hfit
      have hone : (objectText [call]).length < pingJsonMax := by
        simp only [List.length_append] at hfit
        unfold pingJsonMax
        omega
      rw [List.foldlM_cons, constructJson_first hj (hp call List.mem_cons_self) hone, ok_bind]
      refine foldlM_constructJson hj (fun c hc => hp c (List.mem_cons_of_mem call hc)) ?_ ?_
      · simp [objectText]
      · unfold pingJsonMax
        omega

/-- A plain call as a member that is read back. -/
def JsonCall.member : (call : JsonCall) → call.Plain → Member 1
  | .str key val, h => strMember 0 key val h.1 h.2
  | .int key val, h => intMember 0 key val.toInt h
  | .uint key val, h => intMember 0 key val.toNat h
  | .arr _ _, h => h.elim

theorem render_member {call : JsonCall} (h : call.Plain) : (call.member h).render = call.text := by
  cases call with
  | str key val => simp [JsonCall.member, strMember, Member.render, JsonCall.text, strText, keyText]
  | int key val => simp [JsonCall.member, intMember, Member.render, JsonCall.text, intText, keyText]
  | uint key val => simp [JsonCall.member, intMember, Member.render, JsonCall.text, intText, keyText]
  | arr key vals => exact h.elim

theorem pair_member {call : JsonCall} (h : call.Plain) : (call.member h).pair = call.pair := by
  cases call with
  | str key val => rfl
  | int key val => rfl
  | uint key val => rfl
  | arr key vals => exact h.elim

theorem newline_member {call : JsonCall} (h : call.Plain) : '\n' ∉ (call.member h).text := by
  cases call with
  | str key val => simp [JsonCall.member, strMember, h.2.newline]
  | int key val => exact newline_decText val.toInt
  | uint key val => exact newline_decText (val.toNat : ℤ)
  | arr key vals => exact h.elim

def members (calls : List JsonCall) (h : ∀ call ∈ calls, call.Plain) : List (Member 1) :=
  calls.pmap JsonCall.member h

theorem pairs_members {calls : List JsonCall} (h : ∀ call ∈ calls, call.Plain) :
    (members calls h).map Member.pair = calls.map JsonCall.pair := by
  rw [members, List.map_pmap]
  simp only [pair_member]
  exact List.pmap_eq_map h

/-- The buffer holds the members separated by commas. -/
theorem renderMembers_members {call : JsonCall} {calls : List JsonCall}
    (h : ∀ c ∈ call :: calls, c.Plain) :
    renderMembers (members (call :: calls) h) = call.text ++ moreTexts calls := by
  induction calls generalizing call with
  | nil => simp [members, renderMembers, render_member, moreTexts]
  | cons next calls ih =>
      have hrest : ∀ c ∈ next :: calls, c.Plain := fun c hc => h c (List.mem_cons_of_mem call hc)
      have hcons : members (call :: next :: calls) h =
          call.member (h call List.mem_cons_self) :: members (next :: calls) hrest := rfl
      have hnext : members (next :: calls) hrest =
          next.member (hrest next List.mem_cons_self) ::
            members calls (fun c hc => hrest c (List.mem_cons_of_mem next hc)) := rfl
      have hmore : moreTexts (next :: calls) = ", ".toList ++ (next.text ++ moreTexts calls) := by
        simp [moreTexts]
      rw [hcons, hmore, ← ih hrest, hnext, renderMembers, render_member, List.append_assoc]
      simp

/-- What `print_json_packet` adds closes the object and ends the line. -/
theorem emitsObject_objectText {call : JsonCall} {calls : List JsonCall}
    (h : ∀ c ∈ call :: calls, c.Plain) :
    EmitsObject (objectText (call :: calls) ++ ['\x7d', '\n'])
      ((call :: calls).map JsonCall.pair) := by
  have hms : members (call :: calls) h =
      call.member (h call List.mem_cons_self) ::
        members calls (fun c hc => h c (List.mem_cons_of_mem call hc)) := rfl
  have htext : objectText (call :: calls) ++ ['\x7d', '\n'] =
      renderObject (members (call :: calls) h) ++ ['\n'] := by
    simp [objectText, renderObject, renderMembers_members h]
  have hnl : '\n' ∉ renderMembers (members (call :: calls) h) := by
    apply newline_renderMembers
    intro m hm
    obtain ⟨c, hc, rfl⟩ := List.mem_pmap.mp hm
    exact newline_member (h c hc)
  refine ⟨renderObject (members (call :: calls) h), htext, ?_, ?_⟩
  · simp [renderObject, hnl]
  · rw [← pairs_members h, hms]
    exact parse_object _ _ (by omega)

/-- What a packet prints: nothing for no calls, else the closed object. -/
def packetLine (calls : List JsonCall) : List Char :=
  if calls = [] then [] else objectText calls ++ ['\x7d', '\n']

theorem emitPacket_eq {r : Rts} (hj : r.optJson = true) {calls : List JsonCall}
    (h : Printable calls) : emitPacket r {} calls = .ok (packetLine calls, {}) := by
  rw [emitPacket, foldlM_constructJson_empty hj h, ok_bind]
  cases calls with
  | nil => simp [printJsonPacket, JsonBuffer.ofText, objectText, packetLine, pure, Except.pure]
  | cons call calls =>
      simp [printJsonPacket, JsonBuffer.ofText, objectText, packetLine, pure, Except.pure, hj]

theorem emitPackets_eq {r : Rts} (hj : r.optJson = true) {packets : List (List JsonCall)}
    (h : ∀ calls ∈ packets, Printable calls) :
    emitPackets r {} packets = .ok (packets.map packetLine, {}) := by
  induction packets with
  | nil => rfl
  | cons calls packets ih =>
      have hrest : ∀ c ∈ packets, Printable c := fun c hc => h c (List.mem_cons_of_mem calls hc)
      rw [emitPackets, emitPacket_eq hj (h calls List.mem_cons_self), ok_bind]
      dsimp only
      rw [ih hrest]
      rfl

/-- In JSON mode a run of packets prints one line for each packet that has a call
and nothing for the others. The line of a packet is `packetLine` of its own calls,
it is an object with exactly their members in call order, and the buffer is empty
behind every prefix of the run. -/
theorem packets_round_trip {r : Rts} (hj : r.optJson = true) {packets : List (List JsonCall)}
    (h : ∀ calls ∈ packets, Printable calls) :
    emitPackets r {} packets = .ok (packets.map packetLine, {}) ∧
    (∀ front back, packets = front ++ back →
      emitPackets r {} front = .ok (front.map packetLine, {})) ∧
    ∀ calls ∈ packets,
      emitPacket r {} calls = .ok (packetLine calls, {}) ∧
      (calls = [] → packetLine calls = []) ∧
      (calls ≠ [] → EmitsObject (packetLine calls) (calls.map JsonCall.pair)) := by
  refine ⟨emitPackets_eq hj h, ?_, ?_⟩
  · intro front back hsplit
    apply emitPackets_eq hj
    intro calls hcalls
    exact h calls (by rw [hsplit]; exact List.mem_append_left back hcalls)
  · intro calls hcalls
    refine ⟨emitPacket_eq hj (h calls hcalls), fun hnil => if_pos hnil, fun hne => ?_⟩
    rw [packetLine, if_neg hne]
    cases calls with
    | nil => exact absurd rfl hne
    | cons call calls => exact emitsObject_objectText (h _ hcalls).plain

def errorPacket : List JsonCall := [.str "error" "sendmsg".toList]

/-- As `gather_statistics` composes one. -/
def replyPacket : List JsonCall :=
  [.int "bytes" 64, .str "host" "::1".toList, .uint "seq" 1, .int "ttl" 64]

theorem packets_round_trip_two :
    EmitsObject (packetLine errorPacket) (errorPacket.map JsonCall.pair) ∧
      EmitsObject (packetLine replyPacket) (replyPacket.map JsonCall.pair) := by
  have h : ∀ calls ∈ [errorPacket, replyPacket], Printable calls := by
    intro calls hcalls
    rcases List.mem_cons.mp hcalls with rfl | hcalls
    · exact ⟨by decide +kernel, by decide +kernel⟩
    · obtain rfl := List.mem_singleton.mp hcalls
      exact ⟨by decide +kernel, by decide +kernel⟩
  have hj : ({ optJson := true } : Rts).optJson = true := rfl
  have hall := (packets_round_trip hj h).2.2
  constructor
  · exact (hall errorPacket (by simp)).2.2 (List.cons_ne_nil _ _)
  · exact (hall replyPacket (by simp)).2.2 (List.cons_ne_nil _ _)

/-- Without a call the buffer stays empty, and no line is printed at all. -/
theorem empty_packet_prints_nothing :
    Printable [] ∧ emitPacket { optJson := true } {} [] = .ok ([], {}) ∧
      ¬ EmitsObject [] ([].map JsonCall.pair) := by
  refine ⟨⟨by simp, by decide⟩, rfl, ?_⟩
  intro hx
  obtain ⟨line, h, -⟩ := hx
  simp at h

end Iputils.JsonPacket
