import Iputils.PingJson

/-!
# The final statistics

`ping_print_finish` with both of its output modes. The figures that the source
computes in floating point enter as arbitrary integers after their conversion,
so that nothing depends on how they were rounded. In JSON mode the separators of
the object come from three functions. The object is well formed except when a
pipe size is printed and no flood figures follow.
-/
set_option autoImplicit false

namespace Iputils.PingFinish
open MachineInt PingState PrintfText JsonText PingJson

/-- Results of the floating-point computations: the average and the variance as
integers, the loss as an `int` and as `%g` prints it, and what a `long` becomes
on its way through a `double`. -/
structure FloatResults where
  tmavg : ℤ
  tmvar : ℤ
  loss : ℤ
  lossText : List Char
  toDouble : ℤ → ℤ

def llongMax : ℕ := 9223372036854775807

/-- The Newton iteration of `llsqrt`: it stops when the estimate no longer falls. -/
def newton (a : ℕ) (prev x : ℕ) : ℕ :=
  if x < prev then newton a x ((x + a / x) / 2) else x
termination_by prev

def llsqrt (a : ℤ) : ℤ := if a > 0 then newton a.toNat llongMax a.toNat else a

/-- The format `%ld.%03ld` for microseconds shown in milliseconds. -/
def msText (us : ℤ) : List Char := decText (us.tdiv 1000) ++ '.' :: padText 3 (us.tmod 1000)

/-- The format `%lu.%03ld` of the average. -/
def avgText (us : ℤ) : List Char :=
  decText (u64 (us.tdiv 1000)) ++ '.' :: padText 3 (us.tmod 1000)

def pingPrintStatistics (r : Rts) (fp : FloatResults) (tv : Timespec) (b : JsonBuffer) :
    Except JsonFault (List Char × JsonBuffer) :=
  let tmavg := i64 fp.tmavg
  let tmdev := fp.toDouble (llsqrt (i64 fp.tmvar))
  let rttmin := msText (i64 r.tmin)
  let rttavg := avgText tmavg
  let rttmax := msText (i64 r.tmax)
  let rttmdev := msText (i64 tmdev)
  if r.optJson then
    (constructJsonStatistics r b tv fp.loss rttmin rttavg rttmax rttmdev).map fun b => ([], b)
  else
    .ok ("rtt min/avg/max/mdev = ".toList ++ rttmin ++ '/' :: rttavg ++ '/' :: rttmax ++
      '/' :: rttmdev ++ " ms".toList, b)

/-- The counters that open the report in text mode. -/
def countersText (r : Rts) (fp : FloatResults) (tv : Timespec) : List Char :=
  "--- ".toList ++ r.hostname ++ " ping statistics ---\n".toList ++
  decText r.ntransmitted ++ " packets transmitted, ".toList ++
  decText r.nreceived ++ " received".toList ++
  (if r.nrepeats ≠ 0 then ", +".toList ++ decText r.nrepeats ++ " duplicates".toList else []) ++
  (if r.nchecksum ≠ 0 then ", +".toList ++ decText r.nchecksum ++ " corrupted".toList else []) ++
  (if r.nerrors ≠ 0 then ", +".toList ++ decText r.nerrors ++ " errors".toList else []) ++
  (if r.ntransmitted ≠ 0 then
    ", ".toList ++ fp.lossText ++ "% packet loss, time ".toList ++
      decText (u64 (1000 * tv.tvSec + (tv.tvNsec + 500000).tdiv 1000000)) ++ "ms".toList
  else []) ++ ['\n']

/-- Flood figures are reported for back-to-back sending of more than one probe. -/
def FloodFigures (r : Rts) : Prop :=
  (r.interval = 0 ∨ r.optFlood = true ∨ r.optAdaptive = true) ∧ r.ntransmitted > 1

instance (r : Rts) : Decidable (FloodFigures r) := inferInstanceAs (Decidable (_ ∧ _))

def ipgText (r : Rts) (tv : Timespec) : List Char :=
  msText (i32 ((1000000 * tv.tvSec + tv.tvNsec.tdiv 1000).tdiv (r.ntransmitted - 1)))

def ewmaText (r : Rts) : List Char :=
  decText (r.rtt / 8000) ++ '.' :: padText 3 (r.rtt / 8 % 1000)

/-- A reply has been timed; `comma` is set behind its figures. -/
def Timed (r : Rts) : Prop := r.nreceived ≠ 0 ∧ r.timing = true

instance (r : Rts) : Decidable (Timed r) := inferInstanceAs (Decidable (_ ∧ _))

def reportStatistics (r : Rts) (fp : FloatResults) (tv : Timespec) (b : JsonBuffer) :
    Except JsonFault (List Char × JsonBuffer) :=
  if Timed r then pingPrintStatistics r fp tv b else .ok ([], b)

def pipeReport (r : Rts) : List Char :=
  if r.pipesize > 1 ∧ r.optJson = false then
    (if Timed r then ", ".toList else []) ++ "pipe ".toList ++ decText r.pipesize
  else []

def floodReport (r : Rts) (tv : Timespec) : List Char :=
  if r.optJson then []
  else (if Timed r ∨ r.pipesize > 1 then ", ".toList else []) ++ "ipg/ewma ".toList ++
    ipgText r tv ++ '/' :: ewmaText r ++ " ms".toList

def reportFlood (r : Rts) (tv : Timespec) (b : JsonBuffer) :
    Except JsonFault (List Char × JsonBuffer) :=
  if r.nreceived ≠ 0 ∧ FloodFigures r then
    (constructJsonStatisticsFlood r b (ipgText r tv) (ewmaText r)).map fun b => (floodReport r tv, b)
  else .ok ([], b)

/-- Everything up to the final `print_json_statistics` or newline: the text
printed so far and the statistics buffer. -/
def finishReport (r : Rts) (fp : FloatResults) (b : JsonBuffer) :
    Except JsonFault (List Char × JsonBuffer) := do
  let tv := tssub r.curTime r.startTime
  let (stats, b) ← reportStatistics r fp tv b
  let (flood, b) ← reportFlood r tv b
  let counters := if r.optJson then [] else '\n' :: countersText r fp tv
  pure (counters ++ stats ++ pipeReport r ++ flood, b)

def pingPrintFinish (r : Rts) (fp : FloatResults) (b : JsonBuffer) :
    Except JsonFault (List Char × JsonBuffer) := do
  let (out, b) ← finishReport r fp b
  if r.optJson then
    let (json, b) := printJsonStatistics r b
    pure (out ++ json, b)
  else pure (out ++ ['\n'], b)

/-- Empty, or exactly one line that is a JSON object. -/
def ValidOutput (out : List Char) : Prop :=
  out = [] ∨ ∃ line members, out = line ++ ['\n'] ∧ '\n' ∉ line ∧
    parse line = some (.obj members)

theorem natAbs_i64 (x : ℤ) : (i64 x).natAbs < 10 ^ 19 := by
  unfold i64
  omega

theorem natAbs_u64 (x : ℤ) : (u64 x).natAbs < 10 ^ 20 := by
  unfold u64
  omega

theorem natAbs_tdiv {x : ℤ} {n : ℕ} (h : x.natAbs < n) (k : ℤ) : (x.tdiv k).natAbs < n := by
  rw [Int.natAbs_tdiv]
  exact lt_of_le_of_lt (Nat.div_le_self _ _) h

theorem natAbs_tmod (x : ℤ) : (x.tmod 1000).natAbs < 10 ^ 3 := by
  rw [Int.natAbs_tmod]
  exact Nat.mod_lt _ (by decide)

theorem length_msText {x : ℤ} (h : x.natAbs < 10 ^ 19) : (msText x).length ≤ 28 := by
  have h₁ := length_decText_le (by decide) (natAbs_tdiv h 1000)
  have h₂ : (padText 3 (x.tmod 1000)).length ≤ 3 + 3 + 1 :=
    length_padText_le (by decide) (natAbs_tmod x)
  simp only [msText, List.length_append, List.length_cons]
  omega

theorem length_avgText (x : ℤ) : (avgText x).length ≤ 29 := by
  have h₁ := length_decText_le (by decide) (natAbs_u64 (x.tdiv 1000))
  have h₂ : (padText 3 (x.tmod 1000)).length ≤ 3 + 3 + 1 :=
    length_padText_le (by decide) (natAbs_tmod x)
  simp only [avgText, List.length_append, List.length_cons]
  omega

theorem cleanChar_digit {c : Char} (h : c = '-' ∨ c.isDigit = true) : CleanChar c := by
  rcases h with rfl | h
  · decide
  · have hlow : 48 ≤ c.toNat := by
      simp only [Char.isDigit, Bool.and_eq_true, decide_eq_true_eq] at h
      exact UInt32.le_iff_toNat_le.mp h.1
    refine ⟨by omega, ?_, ?_⟩ <;> rintro rfl <;> exact absurd h (by decide)

/-- Two conversions with a point between them are clean. -/
theorem clean_point (x : ℤ) (w : ℕ) (y : ℤ) : Clean (decText x ++ '.' :: padText w y) := by
  intro c hc
  rcases List.mem_append.mp hc with hc | hc
  · exact cleanChar_digit (mem_decText hc)
  · rcases List.mem_cons.mp hc with rfl | hc
    · decide
    · exact cleanChar_digit (mem_padText hc)

def strMember (n : ℕ) (key : String) (val : List Char) (hk : Clean key.toList) (hv : Clean val) :
    Member (n + 1) where
  key := key.toList
  text := '"' :: val ++ ['"']
  value := .str val
  clean := hk
  denotes := (denotes_str hv).mono (by omega)

def intMember (n : ℕ) (key : String) (val : ℤ) (hk : Clean key.toList) : Member (n + 1) where
  key := key.toList
  text := decText val
  value := .num (decText val)
  clean := hk
  denotes := (denotes_decText val).mono (by omega)

/-- The four round-trip figures as they are printed. -/
structure Figures where
  rttmin : List Char
  rttavg : List Char
  rttmax : List Char
  rttmdev : List Char
  cleanMin : Clean rttmin
  cleanAvg : Clean rttavg
  cleanMax : Clean rttmax
  cleanMdev : Clean rttmdev
  short : rttmin.length + rttavg.length + rttmax.length + rttmdev.length < 3900

def figures (r : Rts) (fp : FloatResults) : Figures where
  rttmin := msText (i64 r.tmin)
  rttavg := avgText (i64 fp.tmavg)
  rttmax := msText (i64 r.tmax)
  rttmdev := msText (i64 (fp.toDouble (llsqrt (i64 fp.tmvar))))
  cleanMin := clean_point _ _ _
  cleanAvg := clean_point _ _ _
  cleanMax := clean_point _ _ _
  cleanMdev := clean_point _ _ _
  short := by
    have h₁ := length_msText (natAbs_i64 r.tmin)
    have h₂ := length_avgText (i64 fp.tmavg)
    have h₃ := length_msText (natAbs_i64 r.tmax)
    have h₄ := length_msText (natAbs_i64 (fp.toDouble (llsqrt (i64 fp.tmvar))))
    omega

def Figures.text (f : Figures) : List Char := rttText f.rttmin f.rttavg f.rttmax f.rttmdev

def Figures.members (f : Figures) : List (Member 1) :=
  [strMember 0 "avg" f.rttavg (by decide) f.cleanAvg,
   strMember 0 "max" f.rttmax (by decide) f.cleanMax,
   strMember 0 "mdev" f.rttmdev (by decide) f.cleanMdev]

theorem Figures.text_eq (f : Figures) :
    f.text = renderObject (strMember 0 "min" f.rttmin (by decide) f.cleanMin :: f.members) := by
  simp [Figures.text, Figures.members, rttText, strText, keyText, renderObject, renderMembers,
    Member.render, strMember]

/-- The member that holds the inner object. -/
def Figures.member (f : Figures) : Member 6 where
  key := "rtt".toList
  text := f.text
  value := .obj ((strMember 0 "min" f.rttmin (by decide) f.cleanMin :: f.members).map Member.pair)
  clean := by decide
  denotes := f.text_eq ▸ denotes_object _ f.members

theorem Figures.newline (f : Figures) : '\n' ∉ f.text := by
  have h : ∀ (key : String) (val : List Char), Clean key.toList → Clean val →
      '\n' ∉ strText key val := by
    intro key val hk hv
    simp [strText, keyText, hk.newline, hv.newline]
  simp only [Figures.text, rttText, List.cons_append, List.mem_cons, List.mem_append, not_or]
  exact ⟨by decide, ⟨⟨⟨⟨⟨⟨h _ _ (by decide) f.cleanMin, by decide⟩, h _ _ (by decide) f.cleanAvg⟩,
    by decide⟩, h _ _ (by decide) f.cleanMax⟩, by decide⟩, h _ _ (by decide) f.cleanMdev⟩,
    by decide, by simp⟩

section
variable {r : Rts} (hh : Clean r.hostname) (tv : Timespec) (loss : ℤ) (f : Figures)

def hostMember : Member 6 := strMember 5 "host" r.hostname (by decide) hh

/-- The members behind `host` that every statistics object has. -/
def baseMembers (r : Rts) : List (Member 6) :=
  [intMember 5 "transmitted" (i32 r.ntransmitted) (by decide),
   intMember 5 "received" (i32 r.nreceived) (by decide),
   intMember 5 "duplicates" (i32 r.nrepeats) (by decide),
   intMember 5 "corrupted" (i32 r.nchecksum) (by decide),
   intMember 5 "errors" (i32 r.nerrors) (by decide),
   intMember 5 "loss" (i32 loss) (by decide),
   intMember 5 "time" (i32 (u64 (1000 * tv.tvSec + (tv.tvNsec + 500000).tdiv 1000000)))
     (by decide),
   f.member]

def pipeMember (r : Rts) : Member 6 := intMember 5 "pipe" (i32 r.pipesize) (by decide)

def floodMembers {ipg ewma : List Char} (hi : Clean ipg) (he : Clean ewma) : List (Member 6) :=
  [strMember 5 "ipg" ipg (by decide) hi, strMember 5 "ewma" ewma (by decide) he]

theorem stats_plain (hp : ¬ r.pipesize > 1) :
    (statsTexts r tv loss f.text).flatten =
      renderMembers (hostMember hh :: baseMembers tv loss f r) := by
  simp [statsTexts, hp, hostMember, baseMembers, renderMembers, Member.render, strMember,
    intMember, Figures.member, strText, intText, keyText]

theorem stats_pipe (hp : r.pipesize > 1) :
    (statsTexts r tv loss f.text).flatten =
      renderOpen (hostMember hh :: (baseMembers tv loss f r ++ [pipeMember r])) := by
  simp [statsTexts, hp, hostMember, baseMembers, pipeMember, renderOpen, Member.render, strMember,
    intMember, Figures.member, strText, intText, keyText]

theorem stats_plain_flood (hp : ¬ r.pipesize > 1) {ipg ewma : List Char} (hi : Clean ipg)
    (he : Clean ewma) :
    (statsTexts r tv loss f.text).flatten ++ (floodTexts r ipg ewma).flatten =
      renderMembers (hostMember hh :: (baseMembers tv loss f r ++ floodMembers hi he)) := by
  have hp' : r.pipesize < 2 := by omega
  simp [statsTexts, floodTexts, hp, hp', hostMember, baseMembers, floodMembers, renderMembers,
    Member.render, strMember, intMember, Figures.member, strText, intText, keyText]

theorem stats_pipe_flood (hp : r.pipesize > 1) {ipg ewma : List Char} (hi : Clean ipg)
    (he : Clean ewma) :
    (statsTexts r tv loss f.text).flatten ++ (floodTexts r ipg ewma).flatten =
      renderMembers
        (hostMember hh :: (baseMembers tv loss f r ++ pipeMember r :: floodMembers hi he)) := by
  have hp' : ¬ r.pipesize < 2 := by omega
  simp [statsTexts, floodTexts, hp, hp', hostMember, baseMembers, pipeMember, floodMembers,
    renderMembers, Member.render, strMember, intMember, Figures.member, strText, intText, keyText]

theorem newline_decText (x : ℤ) : '\n' ∉ decText x := by
  intro hn
  rcases mem_decText hn with h | h <;> exact absurd h (by decide)

/-- No member has a line break in its value. -/
theorem newline_members {r : Rts} (hh : Clean r.hostname) (tv : Timespec) (loss : ℤ) (f : Figures)
    {ms : List (Member 6)} (hms : ∀ m ∈ ms, '\n' ∉ m.text) :
    ∀ m ∈ hostMember hh :: (baseMembers tv loss f r ++ ms), '\n' ∉ m.text := by
  intro m hm
  simp only [List.mem_cons, List.mem_append, baseMembers, List.not_mem_nil, or_false] at hm
  rcases hm with rfl | (rfl | rfl | rfl | rfl | rfl | rfl | rfl | rfl) | hm
  · simp [hostMember, strMember, hh.newline]
  · exact newline_decText _
  · exact newline_decText _
  · exact newline_decText _
  · exact newline_decText _
  · exact newline_decText _
  · exact newline_decText _
  · exact newline_decText _
  · exact f.newline
  · exact hms m hm

end

/-- A finished object printed on a line of its own is valid. -/
theorem validOutput_object {m : Member 6} {ms : List (Member 6)} (hlen : 2 ≤ ms.length)
    (hn : ∀ m' ∈ m :: ms, '\n' ∉ m'.text) :
    ValidOutput ('\x7b' :: renderMembers (m :: ms) ++ ['\x7d', '\n']) := by
  refine Or.inr ⟨renderObject (m :: ms), (m :: ms).map Member.pair, ?_, ?_, ?_⟩
  · simp [renderObject]
  · simp [renderObject, newline_renderMembers hn]
  · exact parse_object m ms (by omega)

/-- An object left open by a comma is not. -/
theorem not_validOutput_open {m : Member 6} {ms : List (Member 6)} (hlen : 2 ≤ ms.length) :
    ¬ ValidOutput ('\x7b' :: renderOpen (m :: ms) ++ ['\x7d', '\n']) := by
  intro hx
  rcases hx with h | ⟨line, members, h, -, hp⟩
  · simp at h
  · have hline : line = '\x7b' :: renderOpen (m :: ms) ++ ['\x7d'] := by
      have h' : '\x7b' :: renderOpen (m :: ms) ++ ['\x7d'] ++ ['\n'] = line ++ ['\n'] := by
        rw [← h]
        simp
      exact (List.append_cancel_right h').symm
    rw [hline, parse_open m ms (by omega)] at hp
    cases hp

/-- Without a reply that was timed nothing is written to the buffer. -/
theorem finishReport_untimed {r : Rts} (fp : FloatResults) (hj : r.optJson = true)
    (ht : ¬ Timed r) : finishReport r fp {} = .ok ([], {}) := by
  have hflood : ∀ tv, reportFlood r tv {} = .ok ([], {}) := by
    intro tv
    unfold reportFlood
    split_ifs
    · simp [constructJsonStatisticsFlood, floodReport, hj, Except.map]
    · rfl
  simp only [finishReport, reportStatistics, if_neg ht, hj, pipeReport, ok_bind, hflood]
  simp [pure, Except.pure]

theorem reportStatistics_timed {r : Rts} (fp : FloatResults) (hj : r.optJson = true)
    (ht : Timed r) (tv : Timespec) :
    reportStatistics r fp tv {} =
      (appendAll (.ofText ['\x7b']) (statsTexts r tv fp.loss (figures r fp).text)).map
        fun b => ([], b) := by
  rw [reportStatistics, if_pos ht]
  simp only [pingPrintStatistics, hj, if_true]
  exact congrArg (Except.map _) (constructJsonStatistics_eq hj tv fp.loss (figures r fp).short)

theorem reportFlood_size {r : Rts} {tv : Timespec} {b b' : JsonBuffer} {out : List Char}
    (hj : r.optJson = true) (ht : Timed r) (h : reportFlood r tv b = .ok (out, b')) :
    b.size ≤ b'.size := by
  unfold reportFlood at h
  split_ifs at h
  · obtain ⟨b₁, hc, he⟩ := map_eq_ok h
    obtain rfl : b₁ = b' := congrArg Prod.snd he
    by_cases hb : b.object = []
    · rw [constructJsonStatisticsFlood, if_pos (Or.inr hb)] at hc
      exact (congrArg JsonBuffer.size (Except.ok.inj hc)).le
    · rw [constructJsonStatisticsFlood_eq hj ht.1 ht.2 hb] at hc
      exact appendAll_size_le hc
  · obtain ⟨-, rfl⟩ : [] = out ∧ b = b' := by simpa using h
    exact le_rfl

/-- With one, the buffer holds the texts of the three functions. -/
theorem finishReport_timed {r : Rts} {fp : FloatResults} {out : List Char} {b : JsonBuffer}
    (hj : r.optJson = true) (ht : Timed r) (h : finishReport r fp {} = .ok (out, b))
    (hb : b.size < pingJsonMax) :
    let tv := tssub r.curTime r.startTime
    out = [] ∧ b = .ofText ('\x7b' :: ((statsTexts r tv fp.loss (figures r fp).text).flatten ++
      if FloodFigures r then (floodTexts r (ipgText r tv) (ewmaText r)).flatten else [])) := by
  intro tv
  simp only [finishReport, reportStatistics_timed fp hj ht, hj, if_true] at h
  obtain ⟨⟨stats, b₁⟩, hs, h⟩ := bind_eq_ok h
  obtain ⟨⟨flood, b₂⟩, hf, h⟩ := bind_eq_ok h
  obtain ⟨b₁', ha, he⟩ := map_eq_ok hs
  obtain ⟨rfl, rfl⟩ : [] = stats ∧ b₁' = b₁ := Prod.mk.inj he
  obtain ⟨hout, rfl⟩ := Prod.mk.inj (Except.ok.inj h)
  have hb₁ := appendAll_ofText ha (lt_of_le_of_lt (reportFlood_size hj ht hf) hb)
  have hne : b₁'.object ≠ [] := by simp [hb₁, JsonBuffer.ofText]
  have hpipe : pipeReport r = [] := by simp [pipeReport, hj]
  rw [hpipe] at hout
  by_cases hfl : FloodFigures r
  · simp only [reportFlood, if_pos (And.intro ht.1 hfl)] at hf
    obtain ⟨b₃, hc, he⟩ := map_eq_ok hf
    rw [constructJsonStatisticsFlood_eq hj ht.1 ht.2 hne, hb₁] at hc
    obtain ⟨rfl, rfl⟩ : floodReport r tv = flood ∧ b₃ = b₂ := Prod.mk.inj he
    refine ⟨by simpa [floodReport, hj] using hout.symm, ?_⟩
    rw [appendAll_ofText hc hb, if_pos hfl]
    simp [tv]
  · simp only [reportFlood, if_neg fun h : r.nreceived ≠ 0 ∧ FloodFigures r => hfl h.2] at hf
    obtain ⟨rfl, rfl⟩ := Prod.mk.inj (Except.ok.inj hf)
    refine ⟨by simpa using hout.symm, ?_⟩
    rw [hb₁, if_neg hfl]
    simp [tv]

/-- The final line of a report whose buffer has been printed. -/
theorem pingPrintFinish_eq {r : Rts} {fp : FloatResults} {out : List Char} {b : JsonBuffer}
    (hj : r.optJson = true) (h : finishReport r fp {} = .ok (out, b)) :
    pingPrintFinish r fp {} =
      .ok (out ++ (printJsonStatistics r b).1, (printJsonStatistics r b).2) := by
  simp only [pingPrintFinish, h, ok_bind, hj, if_true]
  rfl

theorem printJsonStatistics_ofText {r : Rts} (hj : r.optJson = true) (c : Char) (t : List Char) :
    printJsonStatistics r (.ofText (c :: t)) = (c :: t ++ ['\x7d', '\n'], {}) :=
  if_pos ⟨hj, by simp [JsonBuffer.ofText]⟩

/-- The text that a timed report prints. -/
def jsonLine (r : Rts) (fp : FloatResults) : List Char :=
  let tv := tssub r.curTime r.startTime
  '\x7b' :: ((statsTexts r tv fp.loss (figures r fp).text).flatten ++
    if FloodFigures r then (floodTexts r (ipgText r tv) (ewmaText r)).flatten else []) ++
    ['\x7d', '\n']

theorem pingPrintFinish_timed {r : Rts} {fp : FloatResults} {out : List Char} {b : JsonBuffer}
    (hj : r.optJson = true) (ht : Timed r) (h : finishReport r fp {} = .ok (out, b))
    (hb : b.size < pingJsonMax) : pingPrintFinish r fp {} = .ok (jsonLine r fp, {}) := by
  obtain ⟨hout, hbuf⟩ := finishReport_timed hj ht h hb
  rw [pingPrintFinish_eq hj h, hbuf, printJsonStatistics_ofText hj, hout]
  rfl

theorem jsonLine_valid {r : Rts} (fp : FloatResults) (hh : Clean r.hostname)
    (hc : r.pipesize ≤ 1 ∨ FloodFigures r) : ValidOutput (jsonLine r fp) := by
  have hi : Clean (ipgText r (tssub r.curTime r.startTime)) := clean_point _ _ _
  have he : Clean (ewmaText r) := clean_point _ _ _
  have hflood : ∀ m ∈ floodMembers hi he, '\n' ∉ m.text := by
    intro m hm
    simp only [floodMembers, List.mem_cons, List.not_mem_nil, or_false] at hm
    rcases hm with rfl | rfl
    · simp [strMember, hi.newline]
    · simp [strMember, he.newline]
  have hpipe : ∀ m ∈ pipeMember r :: floodMembers hi he, '\n' ∉ m.text := by
    intro m hm
    rcases List.mem_cons.mp hm with rfl | hm
    · exact newline_decText _
    · exact hflood m hm
  simp only [jsonLine]
  by_cases hp : r.pipesize > 1
  · have hfl : FloodFigures r := hc.resolve_left (by omega)
    rw [if_pos hfl, stats_pipe_flood hh _ _ _ hp hi he]
    exact validOutput_object (by simp [baseMembers]) (newline_members hh _ _ _ hpipe)
  · by_cases hfl : FloodFigures r
    · rw [if_pos hfl, stats_plain_flood hh _ _ _ hp hi he]
      exact validOutput_object (by simp [baseMembers]) (newline_members hh _ _ _ hflood)
    · rw [if_neg hfl, List.append_nil, stats_plain hh _ _ _ hp]
      have hnil : ∀ m ∈ ([] : List (Member 6)), '\n' ∉ m.text := by simp
      have hn := newline_members hh (tssub r.curTime r.startTime) fp.loss (figures r fp) hnil
      rw [List.append_nil] at hn
      exact validOutput_object (by simp [baseMembers]) hn

theorem jsonLine_invalid {r : Rts} (fp : FloatResults) (hh : Clean r.hostname)
    (hp : r.pipesize > 1) (hfl : ¬ FloodFigures r) : ¬ ValidOutput (jsonLine r fp) := by
  simp only [jsonLine, if_neg hfl, List.append_nil]
  rw [stats_pipe hh _ _ _ hp]
  exact not_validOutput_open (by simp [baseMembers])

/-- The statistics object stays below `PING_JSON_MAX` bytes. -/
def objectFits (r : Rts) (fp : FloatResults) : Bool :=
  match finishReport r fp {} with
  | .ok (_, b) => b.size < pingJsonMax
  | .error _ => false

theorem objectFits_iff {r : Rts} {fp : FloatResults} (h : objectFits r fp = true) :
    ∃ out b, finishReport r fp {} = .ok (out, b) ∧ b.size < pingJsonMax := by
  unfold objectFits at h
  split at h
  · next out b hr => exact ⟨out, b, hr, of_decide_eq_true h⟩
  · cases h

/-- For a clean host name and an object that fits, the output is valid exactly
when nothing is printed, no pipe size is, or the flood figures follow it. -/
theorem finish_valid_iff {r : Rts} {fp : FloatResults} (hj : r.optJson = true)
    (hh : Clean r.hostname) (hfit : objectFits r fp = true) :
    ∃ text, pingPrintFinish r fp {} = .ok (text, {}) ∧
      (ValidOutput text ↔
        r.nreceived = 0 ∨ r.timing = false ∨ r.pipesize ≤ 1 ∨ FloodFigures r) := by
  obtain ⟨out, b, h, hb⟩ := objectFits_iff hfit
  by_cases ht : Timed r
  · refine ⟨jsonLine r fp, pingPrintFinish_timed hj ht h hb, ?_⟩
    constructor
    · intro hv
      by_contra hc
      simp only [not_or] at hc
      exact jsonLine_invalid fp hh (by omega) hc.2.2.2 hv
    · intro hx
      rcases hx with hn | hn | hc
      · exact absurd hn ht.1
      · exact absurd (hn.symm.trans ht.2) (by decide)
      · exact jsonLine_valid fp hh hc
  · have he := pingPrintFinish_eq hj (finishReport_untimed fp hj ht)
    refine ⟨[], he.trans (by simp [printJsonStatistics]), ?_⟩
    constructor
    · intro _
      simp only [Timed, not_and_or, not_not, Bool.not_eq_true] at ht
      rcases ht with ht | ht
      · exact Or.inl ht
      · exact Or.inr (Or.inl ht)
    · intro _
      exact Or.inl rfl

/-- Two replies to a preloaded pair of probes at the default interval. -/
def pipeState : Rts :=
  { hostname := "::1".toList, ntransmitted := 2, nreceived := 2, timing := true, tmin := 31,
    tmax := 40, tsum := 71, pipesize := 2, optJson := true }

/-- Average 35 microseconds, no variance and no loss. -/
def steadyFloats : FloatResults := ⟨35, 0, 0, "0".toList, id⟩

theorem finish_valid_iff_single :
    objectFits { pipeState with pipesize := 1 } steadyFloats = true ∧
    ∃ text, pingPrintFinish { pipeState with pipesize := 1 } steadyFloats {} = .ok (text, {}) ∧
      ValidOutput text := by
  have hfit : objectFits { pipeState with pipesize := 1 } steadyFloats = true := by
    decide +kernel
  obtain ⟨text, ht, hv⟩ := finish_valid_iff rfl (by decide) hfit
  exact ⟨hfit, text, ht, hv.mpr (Or.inr (Or.inr (Or.inl (by decide))))⟩

/-- The object ends in a comma and a brace. -/
theorem pipe_not_valid :
    pipeState.optJson = true ∧ Clean pipeState.hostname ∧
    objectFits pipeState steadyFloats = true ∧
    ∃ text, pingPrintFinish pipeState steadyFloats {} = .ok (text, {}) ∧ ¬ ValidOutput text := by
  have hh : Clean pipeState.hostname := by decide
  have hfit : objectFits pipeState steadyFloats = true := by decide +kernel
  obtain ⟨out, b, h, hb⟩ := objectFits_iff hfit
  exact ⟨rfl, hh, hfit, jsonLine pipeState steadyFloats,
    pingPrintFinish_timed rfl ⟨by decide, rfl⟩ h hb,
    jsonLine_invalid steadyFloats hh (by decide) (by decide)⟩

end Iputils.PingFinish
