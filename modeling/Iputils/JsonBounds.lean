import Iputils.JsonPacket

/-!
# The bounds of a JSON buffer

`json_bufsize` looks at the length of the text that has just been appended and not at
the size of the buffer, which is advanced by what `snprintf` would have written. What
a run of calls appends to a buffer is a list of pieces here, each a text or an object
that is built in a buffer of its own. The result says that every append stays inside
the array exactly when the pieces have less than `PING_JSON_MAX` characters together.
-/
set_option autoImplicit false

namespace Iputils.JsonBounds
open PrintfText PingState PingJson JsonPacket

section Calls

/-- The calls that fill a buffer. -/
inductive BufferCall
  | json (call : JsonCall)
  | statistics (tv : Timespec) (loss : ℤ) (rttmin rttavg rttmax rttmdev : List Char)
  | flood (ipg ewma : List Char)

def BufferCall.run (r : Rts) (b : JsonBuffer) : BufferCall → Except JsonFault JsonBuffer
  | .json call => constructJson r b call
  | .statistics tv loss rttmin rttavg rttmax rttmdev =>
      constructJsonStatistics r b tv loss rttmin rttavg rttmax rttmdev
  | .flood ipg ewma => constructJsonStatisticsFlood r b ipg ewma

/-- A run of calls, each with the state of ping at the time. -/
def runCalls (b : JsonBuffer) (calls : List (Rts × BufferCall)) : Except JsonFault JsonBuffer :=
  calls.foldlM (fun b call => call.2.run call.1 b) b

end Calls

section Pieces

/-- What is appended at once: a text, or a member whose value is an object from a
buffer of its own. -/
inductive Piece
  | text (u : List Char)
  | object (key : String) (us : List (List Char))

def Piece.append (b : JsonBuffer) : Piece → Except JsonFault JsonBuffer
  | .text u => jsonAppend b u
  | .object key us => do
      let val ← appendAll {} us
      jsonAppend b (keyText key ++ val.object)

/-- The piece if nothing is cut off. -/
def Piece.full : Piece → List Char
  | .text u => u
  | .object key us => keyText key ++ us.flatten

def appendPieces (b : JsonBuffer) (ps : List Piece) : Except JsonFault JsonBuffer :=
  ps.foldlM Piece.append b

/-- The buffer after each of the appends that are made. -/
def written (b : JsonBuffer) : List (List Char) → List JsonBuffer
  | [] => []
  | u :: us =>
      match jsonAppend b u with
      | .ok b' => b' :: written b' us
      | .error _ => []

/-- The buffers after the appends of a piece, its own buffer included. -/
def Piece.buffers (b : JsonBuffer) : Piece → List JsonBuffer
  | .text u => written b [u]
  | .object key us =>
      written {} us ++
        match appendAll {} us with
        | .ok val => written b [keyText key ++ val.object]
        | .error _ => []

def allBuffers (b : JsonBuffer) : List Piece → List JsonBuffer
  | [] => []
  | p :: ps =>
      p.buffers b ++
        match p.append b with
        | .ok b' => allBuffers b' ps
        | .error _ => []

/-- What opens a member: a separator, or the brace of the object. -/
def opener (begun : Bool) : List Char := if begun then ", ".toList else ['\x7b']

def texts (us : List (List Char)) : List Piece := us.map Piece.text

def elementTexts : ℕ → List (List Char) → List (List Char)
  | _, [] => []
  | count, val :: vals =>
      (if count > 0 then [", ".toList] else []) ++ ['"' :: val ++ ['"']] ++
        elementTexts (count + 1) vals

def jsonTexts : JsonCall → List (List Char)
  | .arr key vals => [keyText key ++ ['[']] ++ elementTexts 0 vals ++ [[']']]
  | .str key val => [strText key val]
  | .int key val => [intText key (MachineInt.i32 val.toInt)]
  | .uint key val => [intText key (MachineInt.u32 val.toNat)]

def rttTexts (rttmin rttavg rttmax rttmdev : List Char) : List (List Char) :=
  [['\x7b'], strText "min" rttmin, ", ".toList, strText "avg" rttavg, ", ".toList,
    strText "max" rttmax, ", ".toList, strText "mdev" rttmdev, ['\x7d']]

/-- The texts of the statistics in front of the round-trip times. -/
def countTexts (r : Rts) (tv : Timespec) (loss : ℤ) : List (List Char) :=
  [strText "host" r.hostname, ", ".toList,
    intText "transmitted" (MachineInt.i32 r.ntransmitted), ", ".toList,
    intText "received" (MachineInt.i32 r.nreceived), ", ".toList,
    intText "duplicates" (MachineInt.i32 r.nrepeats), ", ".toList,
    intText "corrupted" (MachineInt.i32 r.nchecksum), ", ".toList,
    intText "errors" (MachineInt.i32 r.nerrors), ", ".toList,
    intText "loss" (MachineInt.i32 loss), ", ".toList,
    intText "time" (MachineInt.i32
      (MachineInt.u64 (1000 * tv.tvSec + (tv.tvNsec + 500000).tdiv 1000000))), ", ".toList]

def pipeTexts (r : Rts) : List (List Char) :=
  if r.pipesize > 1 then [", ".toList, intText "pipe" (MachineInt.i32 r.pipesize), ", ".toList]
  else []

/-- What a call appends to a buffer that has been begun, or to an empty one. -/
def BufferCall.pieces (r : Rts) (begun : Bool) (call : BufferCall) : List Piece :=
  if r.optJson = false then []
  else
    match call with
    | .json call => texts (opener begun :: jsonTexts call)
    | .statistics tv loss rttmin rttavg rttmax rttmdev =>
        texts (opener begun :: countTexts r tv loss) ++
          .object "rtt" (rttTexts rttmin rttavg rttmax rttmdev) :: texts (pipeTexts r)
    | .flood ipg ewma =>
        if begun then
          texts ((if r.nreceived ≠ 0 ∧ r.timing = true ∧ r.pipesize < 2 then [", ".toList]
              else []) ++ [strText "ipg" ipg, ", ".toList, strText "ewma" ewma])
        else []

def runPieces : Bool → List (Rts × BufferCall) → List Piece
  | _, [] => []
  | begun, call :: calls =>
      let ps := call.2.pieces call.1 begun
      ps ++ runPieces (begun || !ps.isEmpty) calls

end Pieces

section Refinement

theorem appendPieces_cons (b : JsonBuffer) (p : Piece) (ps : List Piece) :
    appendPieces b (p :: ps) = (p.append b >>= fun b => appendPieces b ps) := rfl

theorem appendPieces_append (b : JsonBuffer) (ps qs : List Piece) :
    appendPieces b (ps ++ qs) = (appendPieces b ps >>= fun b => appendPieces b qs) :=
  List.foldlM_append

theorem appendPieces_texts (b : JsonBuffer) (us : List (List Char)) :
    appendPieces b (texts us) = appendAll b us := List.foldlM_map

theorem appendAll_then (b : JsonBuffer) (us vs : List (List Char))
    (f : JsonBuffer → Except JsonFault JsonBuffer) :
    (appendAll b us >>= fun b => appendAll b vs >>= f) = appendAll b (us ++ vs) >>= f := by
  rw [← appendAll_bind, bind_assoc]

theorem jsonElements_eq (b : JsonBuffer) (count : ℕ) (vals : List (List Char)) :
    jsonElements b count vals = appendAll b (elementTexts count vals) := by
  induction vals generalizing b count with
  | nil => rfl
  | cons val vals ih =>
      unfold jsonElements elementTexts
      simp only [ih, jsonAppend_eq, jsonContinue_eq]
      split_ifs
      · simp only [appendAll_bind, List.append_assoc]
      · simp only [pure_bind, appendAll_bind, List.nil_append]

theorem jsonKvArray_eq (b : JsonBuffer) (key : String) (vals : List (List Char)) :
    jsonKvArray b key vals = appendAll b (jsonTexts (.arr key vals)) := by
  simp only [jsonKvArray, jsonElements_eq, jsonAppend_eq, appendAll_bind, jsonTexts,
    List.append_assoc]

theorem rttObject_eq (rttmin rttavg rttmax rttmdev : List Char) (b : JsonBuffer) :
    (rttObject rttmin rttavg rttmax rttmdev >>= fun rtt => jsonKvObject b "rtt" rtt) =
      Piece.append b (.object "rtt" (rttTexts rttmin rttavg rttmax rttmdev)) := by
  have hstart : jsonStartObject {} = appendAll {} [['\x7b']] := rfl
  have hobject : (rttObject rttmin rttavg rttmax rttmdev >>= fun rtt => jsonEndObject rtt) =
      appendAll {} (rttTexts rttmin rttavg rttmax rttmdev) := by
    simp only [rttObject, hstart, jsonKvStrContinue_eq, jsonKvStr_eq, jsonEndObject, jsonAppend_eq,
      appendAll_bind]
    rfl
  change _ = (appendAll {} (rttTexts rttmin rttavg rttmax rttmdev) >>= fun val =>
    jsonAppend b (keyText "rtt" ++ val.object))
  rw [← hobject, bind_assoc]
  rfl

/-- The array holds no more than the size says, and nothing only at size 0. -/
structure Held (b : JsonBuffer) : Prop where
  length_le : b.object.length ≤ b.size
  empty : b.object = [] → b.size = 0

def begun (b : JsonBuffer) : Bool := b.object ≠ []

theorem jsonBegin_eq {b : JsonBuffer} (h : Held b) :
    jsonBegin b = appendAll b [opener (begun b)] := by
  unfold jsonBegin begun opener
  by_cases hb : b.object = []
  · have hstart : jsonStartObject b = jsonAppend b ['\x7b'] := by
      unfold jsonStartObject jsonAppend
      rw [h.empty hb]
    rw [if_neg (not_not_intro hb), hstart, jsonAppend_eq, if_neg (by simp [hb])]
  · rw [if_pos hb, jsonContinue_eq, if_pos (by simp [hb])]

theorem run_json {b : JsonBuffer} (h : Held b) {r : Rts} (hj : r.optJson ≠ false)
    (call : JsonCall) :
    constructJson r b call = appendPieces b (texts (opener (begun b) :: jsonTexts call)) := by
  rw [appendPieces_texts]
  change (if r.optJson = false then _ else _) = _
  rw [if_neg hj, jsonBegin_eq h]
  cases call <;>
    simp only [jsonKvArray_eq, jsonKvStr_eq, jsonKvInt, jsonKvUint, jsonAppend_eq,
      appendAll_bind, jsonTexts, List.singleton_append]

theorem run_statistics {b : JsonBuffer} (h : Held b) {r : Rts} (hj : r.optJson ≠ false)
    (tv : Timespec) (loss : ℤ) (rttmin rttavg rttmax rttmdev : List Char) :
    BufferCall.run r b (.statistics tv loss rttmin rttavg rttmax rttmdev) =
      appendPieces b (texts (opener (begun b) :: countTexts r tv loss) ++
        .object "rtt" (rttTexts rttmin rttavg rttmax rttmdev) :: texts (pipeTexts r)) := by
  have hrtt : ∀ (b : JsonBuffer) (f : JsonBuffer → Except JsonFault JsonBuffer),
      (rttObject rttmin rttavg rttmax rttmdev >>= fun rtt => jsonKvObject b "rtt" rtt >>= f) =
        Piece.append b (.object "rtt" (rttTexts rttmin rttavg rttmax rttmdev)) >>= f := by
    intro b f
    rw [← rttObject_eq, bind_assoc]
  have hpipe : ∀ b : JsonBuffer, (if r.pipesize > 1 then
      (jsonContinue b >>= fun b => jsonKvIntContinue b "pipe" r.pipesize) else pure b) =
        appendAll b (pipeTexts r) := by
    intro b
    unfold pipeTexts
    split_ifs
    · simp only [jsonContinue_eq, jsonKvIntContinue_eq, appendAll_bind]
      rfl
    · rfl
  rw [appendPieces_append]
  simp only [appendPieces_cons, appendPieces_texts]
  change (if r.optJson = false then _ else _) = _
  rw [if_neg hj, jsonBegin_eq h]
  simp only [jsonKvStrContinue_eq, jsonKvIntContinue_eq, hrtt, appendAll_then] at hpipe ⊢
  simp only [hpipe]
  rfl

theorem run_flood {b : JsonBuffer} {r : Rts} (hj : r.optJson ≠ false) (ipg ewma : List Char) :
    BufferCall.run r b (.flood ipg ewma) =
      appendPieces b (BufferCall.pieces r (begun b) (.flood ipg ewma)) := by
  unfold BufferCall.pieces
  rw [if_neg hj]
  dsimp only
  change (if r.optJson = false ∨ b.object = [] then _ else _) = _
  by_cases hb : b.object = []
  · rw [if_pos (.inr hb), if_neg (by simp [begun, hb])]
    rfl
  · have hbegun : begun b = true := decide_eq_true hb
    rw [if_neg (not_or.mpr ⟨hj, hb⟩), hbegun, if_pos rfl, appendPieces_texts]
    split_ifs
    · simp only [jsonContinue_eq, jsonKvStrContinue_eq, jsonKvStr_eq, appendAll_bind]
      rfl
    · simp only [pure_bind, jsonKvStrContinue_eq, jsonKvStr_eq, appendAll_bind]
      rfl

/-- Each call appends its pieces. -/
theorem run_eq {b : JsonBuffer} (h : Held b) (r : Rts) (call : BufferCall) :
    call.run r b = appendPieces b (call.pieces r (begun b)) := by
  by_cases hj : r.optJson = false
  · unfold BufferCall.pieces
    rw [if_pos hj]
    cases call with
    | json call => exact if_pos hj
    | statistics => exact if_pos hj
    | flood => exact if_pos (.inl hj)
  · cases call with
    | json call =>
        unfold BufferCall.pieces
        rw [if_neg hj]
        exact run_json h hj call
    | statistics tv loss rttmin rttavg rttmax rttmdev =>
        unfold BufferCall.pieces
        rw [if_neg hj]
        exact run_statistics h hj tv loss rttmin rttavg rttmax rttmdev
    | flood ipg ewma => exact run_flood hj ipg ewma

theorem jsonAppend_object {b b' : JsonBuffer} {u : List Char} (h : Held b)
    (hu : jsonAppend b u = .ok b') :
    b'.size = b.size + u.length ∧ ∃ k, b'.object = b.object ++ u.take k ∧
      (b.size = 0 → k = pingJsonMax - 1) := by
  refine ⟨jsonAppend_size hu, ?_⟩
  unfold jsonAppend snprintfAt at hu
  dsimp only at hu
  split_ifs at hu with h₁ h₂ h₃
  · obtain rfl := Except.ok.inj hu
    refine ⟨0, by simp, fun hzero => ?_⟩
    rw [hzero] at h₃
    exact absurd h₃ (by decide)
  · obtain rfl := Except.ok.inj hu
    refine ⟨pingJsonMax - b.size - 1, ?_, fun hzero => by rw [hzero]; rfl⟩
    dsimp only
    rw [List.take_of_length_le h.length_le]

theorem held_append {b b' : JsonBuffer} {u : List Char} (h : Held b)
    (hu : jsonAppend b u = .ok b') : Held b' := by
  obtain ⟨hsize, k, hobject, hfull⟩ := jsonAppend_object h hu
  constructor
  · have hle := h.length_le
    rw [hobject, hsize, List.length_append, List.length_take]
    omega
  · intro hnil
    rw [hobject, List.append_eq_nil_iff] at hnil
    have hzero := h.empty hnil.1
    have hu : u = [] := by
      have hlen := congrArg List.length hnil.2
      rw [hfull hzero, List.length_take, List.length_nil] at hlen
      unfold pingJsonMax at hlen
      exact List.length_eq_zero_iff.mp (by omega)
    rw [hsize, hzero, hu]
    rfl

theorem begun_append {b b' : JsonBuffer} {u : List Char} (h : Held b)
    (hu : jsonAppend b u = .ok b') (hb : begun b = true ∨ u ≠ []) : begun b' = true := by
  obtain ⟨-, k, hobject, hfull⟩ := jsonAppend_object h hu
  refine decide_eq_true fun hnil => ?_
  rw [hobject, List.append_eq_nil_iff] at hnil
  obtain hb | hb := hb
  · exact of_decide_eq_true hb hnil.1
  · have hlen := congrArg List.length hnil.2
    rw [hfull (h.empty hnil.1), List.length_take, List.length_nil] at hlen
    have hpos := List.length_pos_iff.mpr hb
    unfold pingJsonMax at hlen
    omega

/-- A piece is appended as one text. -/
theorem append_eq_ok {b b' : JsonBuffer} {p : Piece} (h : p.append b = .ok b') :
    ∃ u, jsonAppend b u = .ok b' := by
  cases p with
  | text u => exact ⟨u, h⟩
  | object key us =>
      obtain ⟨val, -, hval⟩ := bind_eq_ok h
      exact ⟨_, hval⟩

theorem appendPieces_held {b b' : JsonBuffer} {ps : List Piece} (hb : Held b)
    (h : appendPieces b ps = .ok b') : Held b' ∧ (begun b = true → begun b' = true) := by
  induction ps generalizing b with
  | nil =>
      obtain rfl := Except.ok.inj h
      exact ⟨hb, id⟩
  | cons p ps ih =>
      obtain ⟨b₁, hp, h⟩ := bind_eq_ok h
      obtain ⟨u, hu⟩ := append_eq_ok hp
      obtain ⟨hheld, hbegun⟩ := ih (held_append hb hu) h
      exact ⟨hheld, fun hb' => hbegun (begun_append hb hu (.inl hb'))⟩

/-- An empty buffer is begun by the first piece. -/
theorem begun_pieces {b b' : JsonBuffer} (hb : Held b) {r : Rts} {call : BufferCall}
    (h : appendPieces b (call.pieces r (begun b)) = .ok b') :
    begun b' = (begun b || !(call.pieces r (begun b)).isEmpty) := by
  cases hbegun : begun b with
  | true => exact (appendPieces_held hb h).2 hbegun
  | false =>
      rw [hbegun] at h
      have hshape : call.pieces r false = [] ∨
          ∃ ps, call.pieces r false = .text ['\x7b'] :: ps := by
        unfold BufferCall.pieces
        by_cases hj : r.optJson = false
        · exact .inl (if_pos hj)
        · rw [if_neg hj]
          cases call with
          | json call => exact .inr ⟨_, rfl⟩
          | statistics => exact .inr ⟨_, rfl⟩
          | flood => exact .inl rfl
      obtain hnil | ⟨ps, hps⟩ := hshape
      · rw [hnil] at h ⊢
        obtain rfl := Except.ok.inj h
        exact hbegun
      · rw [hps] at h ⊢
        obtain ⟨b₁, hfirst, h⟩ := bind_eq_ok h
        exact (appendPieces_held (held_append hb hfirst) h).2
          (begun_append hb hfirst (.inr (by decide)))

/-- A run of calls appends its pieces. -/
theorem runCalls_eq {b : JsonBuffer} (hb : Held b) (calls : List (Rts × BufferCall)) :
    runCalls b calls = appendPieces b (runPieces (begun b) calls) := by
  induction calls generalizing b with
  | nil => rfl
  | cons call calls ih =>
      have hcall := run_eq hb call.1 call.2
      unfold runPieces
      dsimp only
      rw [appendPieces_append, ← hcall]
      change (call.2.run call.1 b >>= fun b => runCalls b calls) = _
      cases hrun : call.2.run call.1 b with
      | error e => rfl
      | ok b' =>
          rw [hrun] at hcall
          rw [ok_bind, ok_bind, ih (appendPieces_held hb hcall.symm).1,
            begun_pieces hb hcall.symm]

end Refinement

section Bounds

/-- The size is that of the string, and leaves room for the terminator. -/
structure InBounds (b : JsonBuffer) : Prop where
  exact : b.size = b.object.length
  room : b.size ≤ pingJsonMax - 1

def runText (calls : List (Rts × BufferCall)) : List Char :=
  (runPieces false calls).flatMap Piece.full

/-- Every append of the run stays inside its buffer. -/
structure Bounded (calls : List (Rts × BufferCall)) : Prop where
  buffers : ∀ b ∈ allBuffers {} (runPieces false calls), InBounds b
  no_overrun : runCalls {} calls ≠ .error .overrun

theorem inBounds_ofText {t : List Char} (h : t.length < pingJsonMax) :
    InBounds (.ofText t) := ⟨rfl, Nat.le_sub_one_of_lt h⟩

/-- As long as the buffers are in bounds the texts are in them. -/
theorem append_inBounds {t u : List Char} {b : JsonBuffer}
    (h : jsonAppend (.ofText t) u = .ok b) (hb : InBounds b) :
    b = .ofText (t ++ u) ∧ (t ++ u).length < pingJsonMax := by
  have hsize : b.size = t.length + u.length := jsonAppend_size h
  have hroom := hb.room
  have hfit : t.length + u.length < pingJsonMax := by
    unfold pingJsonMax at hroom ⊢
    omega
  rw [jsonAppend_ofText hfit] at h
  exact ⟨(Except.ok.inj h).symm, by rw [List.length_append]; exact hfit⟩

theorem written_cons {b b' : JsonBuffer} {u : List Char} (h : jsonAppend b u = .ok b')
    (us : List (List Char)) : written b (u :: us) = b' :: written b' us := by
  rw [written, h]

theorem appendAll_inBounds {t : List Char} {us : List (List Char)} {b : JsonBuffer}
    (ht : t.length < pingJsonMax) (h : appendAll (.ofText t) us = .ok b)
    (hall : ∀ b ∈ written (.ofText t) us, InBounds b) :
    b = .ofText (t ++ us.flatten) ∧ (t ++ us.flatten).length < pingJsonMax := by
  induction us generalizing t with
  | nil =>
      obtain rfl := Except.ok.inj h
      rw [List.flatten_nil, List.append_nil]
      exact ⟨rfl, ht⟩
  | cons u us ih =>
      obtain ⟨b₁, hu, h⟩ := bind_eq_ok h
      rw [written_cons hu] at hall
      obtain ⟨rfl, hfit⟩ := append_inBounds hu (hall _ List.mem_cons_self)
      rw [List.flatten_cons, ← List.append_assoc]
      exact ih hfit h fun b hb => hall b (List.mem_cons_of_mem _ hb)

theorem written_fit {t : List Char} {us : List (List Char)}
    (h : (t ++ us.flatten).length < pingJsonMax) : ∀ b ∈ written (.ofText t) us, InBounds b := by
  induction us generalizing t with
  | nil => exact nofun
  | cons u us ih =>
      rw [List.flatten_cons, ← List.append_assoc] at h
      have hu : (t ++ u).length < pingJsonMax := by
        rw [List.length_append] at h
        omega
      rw [List.length_append] at hu
      rw [written_cons (jsonAppend_ofText hu)]
      intro b hb
      obtain rfl | hb := List.mem_cons.mp hb
      · exact inBounds_ofText (by rw [List.length_append]; exact hu)
      · exact ih h b hb

theorem piece_inBounds {t : List Char} {p : Piece} {b : JsonBuffer}
    (h : p.append (.ofText t) = .ok b) (hall : ∀ b ∈ p.buffers (.ofText t), InBounds b) :
    b = .ofText (t ++ p.full) ∧ (t ++ p.full).length < pingJsonMax := by
  cases p with
  | text u =>
      have hu : jsonAppend (.ofText t) u = .ok b := h
      unfold Piece.buffers at hall
      dsimp only at hall
      rw [written_cons hu] at hall
      exact append_inBounds hu (hall b List.mem_cons_self)
  | object key us =>
      obtain ⟨val, hval, hu⟩ := bind_eq_ok h
      unfold Piece.buffers at hall
      dsimp only at hall
      rw [hval] at hall
      dsimp only at hall
      rw [written_cons hu] at hall
      have hinner := appendAll_inBounds (t := []) (by decide) hval
        fun b hb => hall b (List.mem_append_left _ hb)
      obtain rfl := hinner.1
      exact append_inBounds hu (hall b (List.mem_append_right _ List.mem_cons_self))

theorem piece_fit {t : List Char} {p : Piece} (h : (t ++ p.full).length < pingJsonMax) :
    p.append (.ofText t) = .ok (.ofText (t ++ p.full)) ∧
      ∀ b ∈ p.buffers (.ofText t), InBounds b := by
  have hone : ∀ u : List Char, (t ++ u).length < pingJsonMax →
      jsonAppend (.ofText t) u = .ok (.ofText (t ++ u)) ∧
        ∀ b ∈ written (.ofText t) [u], InBounds b := by
    intro u hu
    exact ⟨jsonAppend_ofText (by rw [← List.length_append]; exact hu),
      written_fit (by rwa [List.flatten_singleton])⟩
  cases p with
  | text u => exact hone u h
  | object key us =>
      have hfull : t ++ (keyText key ++ us.flatten) = t ++ (Piece.object key us).full := rfl
      have hinner : ([] ++ us.flatten).length < pingJsonMax := by
        rw [← hfull, List.length_append, List.length_append] at h
        rw [List.nil_append]
        omega
      have hval : appendAll {} us = .ok (.ofText ([] ++ us.flatten)) :=
        appendAll_of_fit (t := []) (by rw [← List.length_append]; exact hinner)
      obtain ⟨happend, hwritten⟩ := hone _ h
      constructor
      · change (appendAll {} us >>= fun val => jsonAppend _ (keyText key ++ val.object)) = _
        rw [hval, ok_bind]
        exact happend
      · unfold Piece.buffers
        dsimp only
        rw [hval]
        intro b hb
        obtain hb | hb := List.mem_append.mp hb
        · exact written_fit hinner b hb
        · exact hwritten b hb

theorem pieces_inBounds {t : List Char} {ps : List Piece} {b : JsonBuffer}
    (ht : t.length < pingJsonMax) (h : appendPieces (.ofText t) ps = .ok b)
    (hall : ∀ b ∈ allBuffers (.ofText t) ps, InBounds b) :
    (t ++ ps.flatMap Piece.full).length < pingJsonMax := by
  induction ps generalizing t with
  | nil => rwa [List.flatMap_nil, List.append_nil]
  | cons p ps ih =>
      obtain ⟨b₁, hp, h⟩ := bind_eq_ok h
      unfold allBuffers at hall
      rw [hp] at hall
      obtain ⟨rfl, hfit⟩ := piece_inBounds hp fun b hb => hall b (List.mem_append_left _ hb)
      rw [List.flatMap_cons, ← List.append_assoc]
      exact ih hfit h fun b hb => hall b (List.mem_append_right _ hb)

theorem pieces_fit {t : List Char} {ps : List Piece}
    (h : (t ++ ps.flatMap Piece.full).length < pingJsonMax) :
    appendPieces (.ofText t) ps = .ok (.ofText (t ++ ps.flatMap Piece.full)) ∧
      ∀ b ∈ allBuffers (.ofText t) ps, InBounds b := by
  induction ps generalizing t with
  | nil =>
      rw [List.flatMap_nil, List.append_nil]
      exact ⟨rfl, nofun⟩
  | cons p ps ih =>
      rw [List.flatMap_cons, ← List.append_assoc] at h ⊢
      have hfit : (t ++ p.full).length < pingJsonMax := by
        rw [List.length_append] at h
        omega
      obtain ⟨happend, hone⟩ := piece_fit hfit
      obtain ⟨hrest, hall⟩ := ih h
      constructor
      · rw [appendPieces_cons, happend, ok_bind, hrest]
      · unfold allBuffers
        rw [happend]
        intro b hb
        obtain hb | hb := List.mem_append.mp hb
        · exact hone b hb
        · exact hall b hb

theorem held_empty : Held {} := ⟨le_rfl, fun _ => rfl⟩

/-- Where the check of the single appends does not stop the run, the buffer is safe
exactly if all that is appended fits it together. -/
theorem bounded_iff (calls : List (Rts × BufferCall))
    (h : runCalls {} calls ≠ .error .emergency) :
    Bounded calls ↔ (runText calls).length < pingJsonMax := by
  have hrun : runCalls {} calls = appendPieces (.ofText []) (runPieces false calls) :=
    runCalls_eq held_empty calls
  constructor
  · rintro ⟨hbuffers, hoverrun⟩
    cases hresult : runCalls {} calls with
    | error e =>
        cases e with
        | emergency => exact absurd hresult h
        | overrun => exact absurd hresult hoverrun
    | ok b => exact pieces_inBounds (t := []) (by decide) (hrun.symm.trans hresult) hbuffers
  · intro hfit
    obtain ⟨happend, hall⟩ := pieces_fit (t := []) hfit
    refine ⟨hall, ?_⟩
    rw [hrun, happend]
    exact nofun

def shortCalls : List (Rts × BufferCall) :=
  [({ optJson := true }, .json (.str "error" "sendmsg".toList)),
    ({ optJson := true }, .json (.int "ttl" 64))]

theorem bounded_short : Bounded shortCalls :=
  (bounded_iff shortCalls (by decide +kernel)).mpr (by decide +kernel)

/-- Two values that fit the buffer one at a time. -/
def longCalls : List (Rts × BufferCall) :=
  [({ optJson := true }, .json (.str "a" (List.replicate 2500 'x'))),
    ({ optJson := true }, .json (.str "b" (List.replicate 2500 'x')))]

theorem size_runs_ahead :
    runCalls {} longCalls ≠ .error .emergency ∧ ¬ Bounded longCalls := by
  refine ⟨by decide +kernel, fun h => ?_⟩
  have hany : (allBuffers {} (runPieces false longCalls)).any
      (fun b => decide (pingJsonMax ≤ b.size)) = true := by decide +kernel
  obtain ⟨b, hb, hsize⟩ := List.any_eq_true.mp hany
  have hroom := (h.buffers b hb).room
  have hfull := of_decide_eq_true hsize
  unfold pingJsonMax at hroom hfull
  omega

end Bounds

end Iputils.JsonBounds
