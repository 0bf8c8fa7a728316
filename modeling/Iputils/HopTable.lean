import Mathlib.Data.List.Range
import Iputils.MachineInt
import Iputils.TracerouteText

/-!
# The table of hops

`btraceroute` and `bmtr` read the output of traceroute through a buffer of 512 bytes and
make a row of the table from everything that starts with a positive number, behind the
first piece. `btraceroute` has room for 30 rows whatever `-m` says. A line for a further
responder is meant to be passed over; it is not if its name starts with a number, as an
address without a name does. Pieces of a line that is too long for the buffer are judged
in the same way.
-/
set_option autoImplicit false

namespace Iputils.HopTable
open MachineInt ScanText HopLine TracerouteText

section Reading

def bufSize : ℕ := 512

/-- The pieces that `fgets` delivers one after the other, with room for `room` more
characters behind `cur`. -/
def fgetsFrom : ℕ → List Char → List Char → List (List Char)
  | _, cur, [] => if cur = [] then [] else [cur]
  | room, cur, c :: s =>
      if c = '\n' ∨ room ≤ 1 then (cur ++ [c]) :: fgetsFrom (bufSize - 1) [] s
      else fgetsFrom (room - 1) (cur ++ [c]) s

def pieces (text : List Char) : List (List Char) := fgetsFrom (bufSize - 1) [] text

/-- `buf[strcspn (buf, "\n")] = '\0'`. -/
def stripped (buf : List Char) : List Char := buf.takeWhile fun c => c ≠ '\n'

/-- The value of `strtol`, which stays in the range of `long`. -/
def longClamp (x : ℤ) : ℤ := max (-9223372036854775808) (min x 9223372036854775807)

/-- `hopnum` behind `sscanf (buf, " %d", &hopnum)`. -/
def hopNumber (buf : List Char) : ℤ :=
  let sign := signItem (buf.dropWhile isSpace)
  let digits := sign.2.takeWhile Char.isDigit
  if digits = [] then 0
  else
    let value : ℤ := Nat.ofDigitChars 10 digits 0
    i32 (longClamp (if sign.1 = ['-'] then -value else value))

/-- The loop over the pieces: those that become rows. Every piece has a mark that the
program does not see. -/
def rowsFrom {τ : Type*} (cap : ℕ) : Bool → ℕ → List (τ × List Char) → List (τ × List Char)
  | _, _, [] => []
  | first, nhops, piece :: rest =>
      if nhops < cap then
        if first then rowsFrom cap false nhops rest
        else
          let buf := stripped piece.2
          if buf = [] then rowsFrom cap false nhops rest
          else if hopNumber buf ≤ 0 then rowsFrom cap false nhops rest
          else (piece.1, buf) :: rowsFrom cap false (nhops + 1) rest
      else []

/-- The lines that the rows of a table with room for `cap` of them are made from. -/
def rows (cap : ℕ) (text : List Char) : List (List Char) :=
  (rowsFrom cap true 0 ((pieces text).map fun piece => ((), piece))).map Prod.snd

end Reading

section Times

/-- Floating-point numbers as far as `bs_line_avg_rtt` and its callers use them. -/
structure Doubles (D : Type*) where
  ofText : List Char → D
  zero : D
  add : D → D → D
  divCount : D → ℕ → D
  minusOne : D
  nonneg : D → Bool
  minusOne_neg : nonneg minusOne = false

variable {D : Type*} (F : Doubles D)

/-- A time in milliseconds that stands here: its number, and the characters it takes. -/
def timeHere (s : List Char) : Option (List Char × ℕ) :=
  (scanTime s).bind fun item =>
    if item.2.1 = "ms".toList then some (item.1, s.length - item.2.2.length) else none

def addTime (acc : D × ℕ) (s : List Char) : D × ℕ :=
  match timeHere s with
  | some t => (F.add acc.1 (F.ofText t.1), acc.2 + 1)
  | none => acc

/-- The characters that the loop of `bs_line_avg_rtt` goes on by. -/
def advance (s : List Char) : ℕ :=
  match timeHere s with
  | some t => t.2
  | none => 1

/-- The loop of `bs_line_avg_rtt` over a line, with `skip` characters to pass over. -/
def sumTimes : ℕ → D × ℕ → List Char → D × ℕ
  | _, acc, [] => acc
  | skip + 1, acc, _ :: s => sumTimes skip acc s
  | 0, acc, c :: s => sumTimes (advance (c :: s) - 1) (addTime F acc (c :: s)) s

def bsLineAvgRtt (line : List Char) : D :=
  let acc := sumTimes F 0 (F.zero, 0) line
  if 0 < acc.2 then F.divCount acc.1 acc.2 else F.minusOne

end Times

/-- A row of the table of `btraceroute`. -/
structure Hop (D : Type*) where
  num : ℤ
  avgMs : D
  host : List Char
  ip : List Char

/-- A row of the table of `bmtr`. -/
structure BmtrHop where
  num : ℤ
  host : List Char
  ip : List Char

def maxHops : ℕ := 30

def hopOf {D : Type*} (F : Doubles D) (buf : List Char) : Hop D :=
  { num := hopNumber buf
    avgMs := bsLineAvgRtt F buf
    host := bsHopHost buf Tool.btraceroute.hostSize
    ip := hopIp .btraceroute buf }

@[simp] theorem hopOf_avgMs {D : Type*} (F : Doubles D) (buf : List Char) :
    (hopOf F buf).avgMs = bsLineAvgRtt F buf := rfl

def hops {D : Type*} (F : Doubles D) (text : List Char) : List (Hop D) :=
  (rows maxHops text).map (hopOf F)

/-- The row that the light-floor is computed from. -/
def lastReachable {D : Type*} (F : Doubles D) (hops : List (Hop D)) : Option (Hop D) :=
  hops.reverse.find? fun h => F.nonneg h.avgMs

def discoverHops (maxhops : ℕ) (text : List Char) : List BmtrHop :=
  (rows maxhops text).map fun buf =>
    { num := hopNumber buf, host := bsHopHost buf Tool.bmtr.hostSize, ip := hopIp .bmtr buf }

section Output

/-- A line for a further responder of a hop. -/
structure Continuation where
  indent : ℕ
  responder : Responder
  time : ℕ
  indent_pos : 0 < indent

def Continuation.text (c : Continuation) : List Char :=
  List.replicate c.indent ' ' ++ c.responder.text ++ timeText c.time

/-- What traceroute prints for one hop. -/
structure HopOutput where
  probes : List Probe
  continuations : List Continuation
  probes_ne_nil : probes ≠ []

def HopOutput.answered (h : HopOutput) : Bool := h.probes.any Option.isSome

/-- A whole output: the header and the hops from 1 on. -/
structure Output where
  header : List Char
  hops : List HopOutput
  header_line : '\n' ∉ header
  hops_length : hops.length ≤ 255

/-- The lines of a hop; the first one is marked with its number. -/
def HopOutput.lines (h : HopOutput) (n : ℕ) : List (Option ℕ × List Char) :=
  (some n, hopLine n h.probes) :: h.continuations.map fun c => (none, c.text)

def Output.numbered (out : Output) : List (HopOutput × ℕ) := out.hops.zipIdx 1

def Output.lines (out : Output) : List (Option ℕ × List Char) :=
  (none, out.header) :: out.numbered.flatMap fun x => x.1.lines x.2

def Output.text (out : Output) : List Char := out.lines.flatMap fun l => l.2 ++ ['\n']

/-- The pieces of a line; the first one has the mark of the line. -/
def markedPieces (l : Option ℕ × List Char) : List (Option ℕ × List Char) :=
  match pieces (l.2 ++ ['\n']) with
  | [] => []
  | piece :: rest => (l.1, piece) :: rest.map fun piece => (none, piece)

def Output.marked (out : Output) : List (Option ℕ × List Char) := out.lines.flatMap markedPieces

/-- The pieces of a line behind the first. -/
def overflow (line : List Char) : List (List Char) := (pieces (line ++ ['\n'])).tail

/-- The pieces of a hop that are not the beginning of its line. -/
def HopOutput.strays (h : HopOutput) (n : ℕ) : List (List Char) :=
  overflow (hopLine n h.probes) ++ h.continuations.flatMap fun c => pieces (c.text ++ ['\n'])

/-- A piece that becomes a row. -/
def Numbered (piece : List Char) : Prop := 0 < hopNumber (stripped piece)

instance (piece : List Char) : Decidable (Numbered piece) := inferInstanceAs (Decidable (_ < _))

end Output

section Pieces

theorem fgetsFrom_append (room : ℕ) (cur line rest : List Char) :
    fgetsFrom room cur (line ++ '\n' :: rest) =
      fgetsFrom room cur (line ++ ['\n']) ++ pieces rest := by
  induction line generalizing room cur with
  | nil => simp [fgetsFrom, pieces]
  | cons c line ih =>
      simp only [List.cons_append, fgetsFrom]
      split_ifs
      · rw [ih, List.cons_append]
      · exact ih _ _

/-- A line ends the piece that its end stands in. -/
theorem pieces_append (line rest : List Char) :
    pieces (line ++ '\n' :: rest) = pieces (line ++ ['\n']) ++ pieces rest :=
  fgetsFrom_append _ _ line rest

/-- The first piece of a line is its beginning. -/
theorem fgetsFrom_head {line : List Char} (h : '\n' ∉ line) (room : ℕ) (cur : List Char) :
    ∃ rest, fgetsFrom (room + 1) cur (line ++ ['\n']) =
      (cur ++ (line ++ ['\n']).take (room + 1)) :: rest := by
  induction line generalizing room cur with
  | nil => exact ⟨[], by simp [fgetsFrom]⟩
  | cons c line ih =>
      obtain ⟨hc, hline⟩ : '\n' ≠ c ∧ '\n' ∉ line := by simpa using h
      cases room with
      | zero => exact ⟨pieces (line ++ ['\n']), by simp [fgetsFrom, pieces]⟩
      | succ room =>
          obtain ⟨rest, hrest⟩ := ih hline room (cur ++ [c])
          refine ⟨rest, ?_⟩
          simp only [List.cons_append, fgetsFrom]
          rw [if_neg (by simp [hc.symm]), Nat.add_sub_cancel, hrest]
          simp

theorem pieces_line {line : List Char} (h : '\n' ∉ line) :
    pieces (line ++ ['\n']) = (line ++ ['\n']).take (bufSize - 1) :: overflow line := by
  obtain ⟨rest, hrest⟩ := fgetsFrom_head h 510 []
  unfold overflow
  rw [show pieces (line ++ ['\n']) = _ from hrest]
  rfl

theorem stripped_head {line : List Char} (h : '\n' ∉ line) :
    stripped ((line ++ ['\n']).take (bufSize - 1)) = line.take (bufSize - 1) := by
  have hm : Munch (fun c => decide (c ≠ '\n')) ((line ++ ['\n']).take (bufSize - 1))
      (line.take (bufSize - 1)) (['\n'].take (bufSize - 1 - line.length)) := by
    refine ⟨List.take_append, fun c hc => ?_, fun c hc => ?_⟩
    · have hne : c ≠ '\n' := fun heq => h (heq ▸ List.mem_of_mem_take hc)
      exact decide_eq_true hne
    · have hmem : c ∈ ['\n'] := List.mem_of_mem_take (List.mem_of_mem_head? hc)
      rw [List.mem_singleton.mp hmem]
      decide
  exact (munch_iff.mp hm).1.symm

end Pieces

section Rows
variable {τ : Type*}

/-- The row that a piece becomes. -/
def row (piece : τ × List Char) : Option (τ × List Char) :=
  if Numbered piece.2 then some (piece.1, stripped piece.2) else none

theorem hopNumber_nil : hopNumber [] = 0 := rfl

/-- Behind the first piece the loop takes all that can become rows, as long as there is
room. -/
theorem rowsFrom_false (cap nhops : ℕ) (xs : List (τ × List Char)) :
    rowsFrom cap false nhops xs = (xs.filterMap row).take (cap - nhops) := by
  induction xs generalizing nhops with
  | nil => simp [rowsFrom]
  | cons piece xs ih =>
      unfold rowsFrom
      by_cases hroom : nhops < cap
      · rw [if_pos hroom, if_neg (by decide), List.filterMap_cons]
        dsimp only
        by_cases hnum : Numbered piece.2
        · have hne : stripped piece.2 ≠ [] := by
            intro hnil
            unfold Numbered at hnum
            rw [hnil, hopNumber_nil] at hnum
            omega
          rw [if_neg hne, if_neg (not_le.mpr hnum), row, if_pos hnum, ih]
          obtain ⟨k, hk⟩ : ∃ k, cap - nhops = k + 1 := ⟨cap - nhops - 1, by omega⟩
          rw [hk, List.take_succ_cons, show cap - (nhops + 1) = k by omega]
        · rw [row, if_neg hnum, if_pos (not_lt.mp hnum), ih, ite_self]
      · rw [if_neg hroom, show cap - nhops = 0 by omega, List.take_zero]

theorem rowsFrom_true (cap : ℕ) (piece : τ × List Char) (xs : List (τ × List Char)) :
    rowsFrom cap true 0 (piece :: xs) = (xs.filterMap row).take cap := by
  unfold rowsFrom
  rw [if_pos rfl, rowsFrom_false]
  by_cases hcap : 0 < cap
  · rw [if_pos hcap, Nat.sub_zero]
  · rw [if_neg hcap, show cap = 0 by omega, List.take_zero]

/-- The marks do not matter to the rows. -/
theorem rowsFrom_unmarked (cap : ℕ) (xs : List (τ × List Char)) :
    (rowsFrom cap true 0 (xs.map fun x => ((), x.2))).map Prod.snd =
      (rowsFrom cap true 0 xs).map Prod.snd := by
  cases xs with
  | nil => rfl
  | cons x xs =>
      rw [List.map_cons, rowsFrom_true, rowsFrom_true, List.map_take, List.map_take,
        List.filterMap_map, List.map_filterMap, List.map_filterMap]
      congr 2
      funext x
      unfold Function.comp row
      dsimp only
      split_ifs <;> rfl

end Rows

section Marks

theorem markedPieces_line {m : Option ℕ} {line : List Char} (h : '\n' ∉ line) :
    markedPieces (m, line) = (m, (line ++ ['\n']).take (bufSize - 1)) ::
      (overflow line).map fun piece => (none, piece) := by
  unfold markedPieces
  rw [pieces_line h]

theorem markedPieces_snd {m : Option ℕ} {line : List Char} (h : '\n' ∉ line) :
    (markedPieces (m, line)).map Prod.snd = pieces (line ++ ['\n']) := by
  rw [markedPieces_line h, pieces_line h, List.map_cons, List.map_map]
  congr 1
  exact List.map_id _

/-- The marked pieces of an output are those that the programs read. -/
theorem marked_snd (lines : List (Option ℕ × List Char)) (h : ∀ l ∈ lines, '\n' ∉ l.2) :
    (lines.flatMap markedPieces).map Prod.snd =
      pieces (lines.flatMap fun l => l.2 ++ ['\n']) := by
  induction lines with
  | nil => rfl
  | cons l lines ih =>
      obtain ⟨m, line⟩ := l
      rw [List.flatMap_cons, List.flatMap_cons, List.map_append, List.append_assoc,
        List.singleton_append, pieces_append, markedPieces_snd (h _ List.mem_cons_self),
        ih fun l' hl' => h l' (List.mem_cons_of_mem _ hl')]

end Marks

section Lines

theorem newline_msText (time : ℕ) : '\n' ∉ msText time := by
  unfold msText
  intro h
  obtain h | h := List.mem_append.mp h
  · exact absurd (PrintfText.isDigit_toDigits h) (by decide)
  · obtain h | h := List.mem_cons.mp h
    · exact absurd h (by decide)
    · exact absurd (isDigit_padText h) (by decide)

theorem newline_timeText (time : ℕ) : '\n' ∉ timeText time := by
  have h := newline_msText time
  unfold timeText
  simp only [List.mem_cons, List.mem_append, not_or]
  exact ⟨by decide, by decide, h, by decide +kernel⟩

theorem newline_responder (r : Responder) : '\n' ∉ r.text := by
  have hip : '\n' ∉ r.ip := fun h => absurd (r.ip_chars _ h) (by decide)
  unfold Responder.text
  simp only [List.mem_cons, List.mem_append, List.not_mem_nil, not_or]
  exact ⟨r.name_line, by decide, by decide, hip, by decide, not_false⟩

theorem newline_probesText (prev : Option Responder) (ps : List Probe) :
    '\n' ∉ probesText prev ps := by
  induction ps generalizing prev with
  | nil => exact List.not_mem_nil
  | cons p ps ih =>
      have hp : '\n' ∉ probeText prev p := by
        cases p with
        | none => exact (by decide +kernel : '\n' ∉ " *".toList)
        | some a =>
            unfold probeText
            dsimp only
            split_ifs
            · exact newline_timeText a.time
            · simp only [List.mem_cons, List.mem_append, not_or]
              exact ⟨by decide, newline_responder a.responder, newline_timeText a.time⟩
      exact fun h => (List.mem_append.mp h).elim hp (ih _)

theorem newline_hopLine (n : ℕ) (ps : List Probe) : '\n' ∉ hopLine n ps := by
  have hnumber : '\n' ∉ numberText n := by
    intro h
    obtain h | h := List.mem_append.mp h
    · obtain h | h := List.mem_append.mp h
      · exact absurd (List.eq_of_mem_replicate h) (by decide)
      · exact absurd (PrintfText.isDigit_toDigits h) (by decide)
    · exact absurd (List.mem_singleton.mp h) (by decide)
  exact fun h => (List.mem_append.mp h).elim hnumber (newline_probesText none ps)

theorem newline_continuation (c : Continuation) : '\n' ∉ c.text := by
  intro h
  obtain h | h := List.mem_append.mp h
  · obtain h | h := List.mem_append.mp h
    · exact absurd (List.eq_of_mem_replicate h) (by decide)
    · exact newline_responder _ h
  · exact newline_timeText _ h

theorem newline_lines (out : Output) : ∀ l ∈ out.lines, '\n' ∉ l.2 := by
  intro l hl
  obtain rfl | hl := List.mem_cons.mp hl
  · exact out.header_line
  · obtain ⟨x, -, hl⟩ := List.mem_flatMap.mp hl
    obtain rfl | hl := List.mem_cons.mp hl
    · exact newline_hopLine _ _
    · obtain ⟨c, -, rfl⟩ := List.mem_map.mp hl
      exact newline_continuation c

/-- The number at the beginning of a hop line is read back, whatever follows. -/
theorem hopNumber_number {n : ℕ} (h : n ≤ 255) (rest : List Char) :
    hopNumber (numberText n ++ rest) = n := by
  obtain ⟨d, ds, hds⟩ := List.exists_cons_of_ne_nil (Nat.toDigits_ne_nil (b := 10) (n := n))
  have hd : d.isDigit := PrintfText.isDigit_toDigits (by rw [hds]; exact List.mem_cons_self)
  have hspace : (numberText n ++ rest).dropWhile isSpace =
      Nat.toDigits 10 n ++ ' ' :: rest := by
    have hm : Munch isSpace (numberText n ++ rest)
        (List.replicate (2 - (Nat.toDigits 10 n).length) ' ') (Nat.toDigits 10 n ++ ' ' :: rest) := by
      refine ⟨by simp [numberText], fun c hc => ?_, fun c hc => ?_⟩
      · rw [List.eq_of_mem_replicate hc]
        decide
      · rw [hds, List.cons_append, List.head?_cons] at hc
        rw [← Option.some.inj hc, not_isSpace_digit hd]
        decide
    exact (munch_iff.mp hm).2.symm
  have hsign : signItem (Nat.toDigits 10 n ++ ' ' :: rest) = ([], Nat.toDigits 10 n ++ ' ' :: rest) := by
    rw [hds]
    exact if_neg (not_or.mpr ⟨isDigit_ne hd (by decide), isDigit_ne hd (by decide)⟩)
  have hdigits : (Nat.toDigits 10 n ++ ' ' :: rest).takeWhile Char.isDigit = Nat.toDigits 10 n := by
    have hm : Munch Char.isDigit (Nat.toDigits 10 n ++ ' ' :: rest) (Nat.toDigits 10 n) (' ' :: rest) :=
      ⟨rfl, fun c hc => PrintfText.isDigit_toDigits hc, by simp⟩
    exact (munch_iff.mp hm).1.symm
  unfold hopNumber
  dsimp only
  rw [hspace, hsign]
  dsimp only
  rw [hdigits, if_neg Nat.toDigits_ne_nil, Nat.ofDigitChars_ten_toDigits, if_neg nofun]
  unfold longClamp i32
  omega

/-- The part of a hop line that fits the buffer. -/
def lineStart (x : HopOutput × ℕ) : List Char := (hopLine x.2 x.1.probes).take (bufSize - 1)

theorem hopNumber_lineStart {x : HopOutput × ℕ} (h : x.2 ≤ 255) : hopNumber (lineStart x) = x.2 := by
  have hlen : (numberText x.2).length ≤ bufSize - 1 := by
    have hdigits := PrintfText.length_toDigits_le (n := x.2) (k := 3) (by decide) (by omega)
    simp only [numberText, List.length_append, List.length_replicate, List.length_singleton]
    unfold bufSize
    omega
  unfold lineStart hopLine
  rw [List.take_append, List.take_of_length_le hlen]
  exact hopNumber_number h _

end Lines

section Entries

/-- The rows that stray pieces become. -/
def strayRows (strays : List (List Char)) : List (Option ℕ × List Char) :=
  (strays.filter fun piece => Numbered piece).map fun piece => (none, stripped piece)

def hopRows (x : HopOutput × ℕ) : List (Option ℕ × List Char) :=
  (some x.2, lineStart x) :: strayRows (x.1.strays x.2)

theorem filterMap_row_none (strays : List (List Char)) :
    (strays.map fun piece => ((none : Option ℕ), piece)).filterMap row = strayRows strays := by
  unfold strayRows
  rw [List.filterMap_map, ← List.filterMap_eq_filter, List.map_filterMap]
  congr 1
  funext piece
  unfold row Function.comp
  by_cases h : Numbered piece
  · simp [h, Option.guard]
  · simp [h, Option.guard]

theorem markedPieces_none {line : List Char} (h : '\n' ∉ line) :
    markedPieces (none, line) = (pieces (line ++ ['\n'])).map fun piece => (none, piece) := by
  rw [markedPieces_line h, pieces_line h, List.map_cons]

/-- The pieces of a hop: the start of its line and the strays. -/
theorem markedPieces_hop (h : HopOutput) (n : ℕ) :
    (h.lines n).flatMap markedPieces =
      (some n, (hopLine n h.probes ++ ['\n']).take (bufSize - 1)) ::
        (h.strays n).map fun piece => (none, piece) := by
  have hconts : (h.continuations.map fun c => ((none : Option ℕ), c.text)).flatMap markedPieces =
      (h.continuations.flatMap fun c => pieces (c.text ++ ['\n'])).map
        fun piece => ((none : Option ℕ), piece) := by
    rw [List.flatMap_map, List.map_flatMap]
    congr 1
    funext c
    exact markedPieces_none (newline_continuation c)
  unfold HopOutput.lines HopOutput.strays
  rw [List.flatMap_cons, hconts, markedPieces_line (newline_hopLine n h.probes), List.map_append,
    List.cons_append]

theorem filterMap_row_hop {x : HopOutput × ℕ} (h : 0 < x.2 ∧ x.2 ≤ 255) :
    ((x.1.lines x.2).flatMap markedPieces).filterMap row = hopRows x := by
  have hstart : stripped ((hopLine x.2 x.1.probes ++ ['\n']).take (bufSize - 1)) = lineStart x :=
    stripped_head (newline_hopLine x.2 x.1.probes)
  have hnum : Numbered ((hopLine x.2 x.1.probes ++ ['\n']).take (bufSize - 1)) := by
    unfold Numbered
    rw [hstart, hopNumber_lineStart h.2]
    omega
  rw [markedPieces_hop, List.filterMap_cons, row, if_pos hnum, filterMap_row_none, hstart]
  rfl

theorem numbered_bounds (out : Output) : ∀ x ∈ out.numbered, 0 < x.2 ∧ x.2 ≤ 255 := by
  rintro ⟨h, n⟩ hx
  obtain ⟨h₁, h₂, -⟩ := List.mem_zipIdx hx
  have := out.hops_length
  dsimp only
  omega

/-- All that can become a row of an output, in order. -/
theorem rows_marked (out : Output) (cap : ℕ) :
    rowsFrom cap true 0 out.marked =
      (strayRows (overflow out.header) ++ out.numbered.flatMap hopRows).take cap := by
  have hhops : ((out.numbered.flatMap fun x => x.1.lines x.2).flatMap markedPieces).filterMap row =
      out.numbered.flatMap hopRows := by
    rw [List.flatMap_assoc, List.filterMap_flatMap]
    exact List.flatMap_congr fun x hx => filterMap_row_hop (numbered_bounds out x hx)
  unfold Output.marked Output.lines
  rw [List.flatMap_cons, markedPieces_line out.header_line, List.cons_append, rowsFrom_true,
    List.filterMap_append, filterMap_row_none, hhops]

end Entries

end Iputils.HopTable
