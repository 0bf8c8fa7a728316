import Iputils.JsonPacket

/-!
# What the reply path writes

The functions that report a reply do not build one text. Some of their output
goes through helpers that switch on `opt_json`, some goes to standard output
directly. They are modelled as lists of the calls they make, in order, and `write`
is what one call does to the packet buffer and to standard output. Messages of
`error` go to standard error and do not appear.
-/
set_option autoImplicit false

namespace Iputils.PingOutput
open MachineInt PingState PrintfText JsonText PingJson PingFinish JsonPacket

/-- `PING_ERROR_MAX`. -/
def pingErrorMax : ℕ := 300

/-- `NI_MAXHOST`. -/
def niMaxhost : ℕ := 1025

/-- The two texts that `getnameinfo` leaves in the buffers of `_pr_addr`. The name
is empty when it is not looked up. -/
structure Host where
  name : List Char
  address : List Char
  nameShort : name.length < niMaxhost
  addressShort : address.length < niMaxhost

/-- The text that `pr_addr` returns. -/
def Host.text (h : Host) : List Char :=
  if h.name ≠ [] ∧ h.name ≠ h.address then h.name ++ " (".toList ++ h.address ++ [')']
  else h.address

/-- A call that writes: `text` is `printf`, `putchar` or `write_stdout`; `member` is
one of `ping_print_int`, `ping_print_uint`, `ping_print_str`, `ping_print_truncated`
with the text for plain output; `error` is `ping_error` with status and `errnum` 0;
`finishLine` is `ping_finish_line`. -/
inductive Print
  | text (s : List Char)
  | member (plain : List Char) (call : JsonCall)
  | error (msg : List Char)
  | finishLine

/-- The packet buffer and what has been written to standard output. -/
structure Terminal where
  packet : JsonBuffer := {}
  out : List Char := []

/-- `print_json_packet`. -/
def flushPacket (r : Rts) (t : Terminal) : Terminal :=
  let (line, packet) := printJsonPacket r t.packet
  ⟨packet, t.out ++ line⟩

def write (r : Rts) (t : Terminal) : Print → Except JsonFault Terminal
  | .text s => .ok { t with out := t.out ++ s }
  | .member plain call =>
      if r.optJson then do
        let packet ← constructJson r t.packet call
        pure { t with packet := packet }
      else .ok { t with out := t.out ++ plain }
  | .error msg =>
      if r.optJson then do
        let packet ← constructJson r t.packet (.str "error" (msg.take (pingErrorMax - 1)))
        pure (flushPacket r { t with packet := packet })
      else .ok t
  | .finishLine => if r.optJson then .ok t else .ok { t with out := t.out ++ ['\n'] }

def writeAll (r : Rts) (t : Terminal) (prints : List Print) : Except JsonFault Terminal :=
  prints.foldlM (write r) t

/-- What goes to standard output as it is. -/
def texts : List Print → List Char
  | [] => []
  | .text s :: ps => s ++ texts ps
  | _ :: ps => texts ps

/-- The members that are added to the packet buffer. -/
def calls : List Print → List JsonCall
  | [] => []
  | .member _ call :: ps => call :: calls ps
  | _ :: ps => calls ps

def errors : List Print → List (List Char)
  | [] => []
  | .error msg :: ps => msg :: errors ps
  | _ :: ps => errors ps

/-- `print_timestamp`, with the clock reading it takes. -/
def printTimestamp (optPtimeofday : Bool) (now : Timeval) : List Print :=
  if optPtimeofday then
    [.text ('[' :: decText (u64 now.tvSec) ++ '.' :: padText 6 (u64 now.tvUsec) ++ "] ".toList)]
  else []

theorem writeAll_cons (r : Rts) (t : Terminal) (x : Print) (xs : List Print) :
    writeAll r t (x :: xs) = (write r t x >>= fun t => writeAll r t xs) := rfl

theorem writeAll_append (r : Rts) (t : Terminal) (xs ys : List Print) :
    writeAll r t (xs ++ ys) = (writeAll r t xs >>= fun t => writeAll r t ys) := by
  simp [writeAll, List.foldlM_append]

@[simp] theorem texts_append (ps qs : List Print) : texts (ps ++ qs) = texts ps ++ texts qs := by
  induction ps with
  | nil => rfl
  | cons p ps ih => cases p <;> simp [texts, ih]

@[simp] theorem calls_append (ps qs : List Print) : calls (ps ++ qs) = calls ps ++ calls qs := by
  induction ps with
  | nil => rfl
  | cons p ps ih => cases p <;> simp [calls, ih]

@[simp] theorem errors_append (ps qs : List Print) : errors (ps ++ qs) = errors ps ++ errors qs := by
  induction ps with
  | nil => rfl
  | cons p ps ih => cases p <;> simp [errors, ih]

/-- In JSON, output without error messages is the texts on the one hand and the
members on the other. -/
theorem writeAll_members {r : Rts} (hj : r.optJson = true) {ps : List Print}
    (he : errors ps = []) (b : JsonBuffer) (out : List Char) :
    writeAll r ⟨b, out⟩ ps =
      ((calls ps).foldlM (constructJson r) b).map fun b => ⟨b, out ++ texts ps⟩ := by
  induction ps generalizing b out with
  | nil => simp [writeAll, calls, texts, pure, Except.pure, Except.map]
  | cons p ps ih =>
      cases p with
      | text s =>
          rw [writeAll_cons, write, ok_bind, ih he]
          simp [calls, texts]
      | member plain call =>
          rw [writeAll_cons, write, if_pos hj, calls, List.foldlM_cons]
          cases constructJson r b call with
          | error e => rfl
          | ok b' =>
              simp only [ok_bind, pure, Except.pure]
              exact ih he b' out
      | error msg => simp [errors] at he
      | finishLine =>
          rw [writeAll_cons, write, if_pos hj, ok_bind, ih he]
          rfl

/-- The line of an error message in JSON. -/
def errorLine (msg : List Char) : List Char :=
  '\x7b' :: strText "error" (msg.take (pingErrorMax - 1)) ++ ['\x7d', '\n']

/-- Between two packets an error message is a line of its own. -/
theorem write_error {r : Rts} (hj : r.optJson = true) (msg out : List Char) :
    write r ⟨{}, out⟩ (.error msg) = .ok ⟨{}, out ++ errorLine msg⟩ := by
  have hbegin : jsonBegin {} = .ok (.ofText ['\x7b']) := rfl
  have hfit : ['\x7b'].length + [strText "error" (msg.take (pingErrorMax - 1))].flatten.length <
      pingJsonMax := by
    have hkey : "error".toList.length = 5 := rfl
    have hmsg : (msg.take (pingErrorMax - 1)).length ≤ 299 := List.length_take_le _ _
    rw [List.flatten_singleton, length_strText, hkey]
    unfold pingJsonMax
    simp only [List.length_singleton]
    omega
  have hc : constructJson r {} (.str "error" (msg.take (pingErrorMax - 1))) =
      .ok (.ofText ('\x7b' :: strText "error" (msg.take (pingErrorMax - 1)))) := by
    rw [constructJson, if_neg (by simp [hj]), hbegin, ok_bind]
    dsimp only
    rw [jsonKvStr_eq, appendAll_of_fit hfit]
    simp
  rw [write, if_pos hj, hc, ok_bind]
  simp [flushPacket, printJsonPacket, hj, JsonBuffer.ofText, errorLine, pure, Except.pure]

/-- Without JSON it goes to standard error. -/
theorem write_error_plain {r : Rts} (hj : r.optJson = false) (msg : List Char) (t : Terminal) :
    write r t (.error msg) = .ok t := by
  simp [write, hj]

theorem Host.length_text (h : Host) : h.text.length ≤ 2051 := by
  have h₁ := h.nameShort
  have h₂ := h.addressShort
  unfold niMaxhost at h₁ h₂
  unfold Host.text
  split_ifs
  · have h₃ : " (".toList.length = 2 := rfl
    simp only [List.length_append, List.length_singleton, h₃]
    omega
  · omega

end Iputils.PingOutput
