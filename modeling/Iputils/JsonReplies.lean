import Iputils.ParseReply

/-!
# Echo replies in JSON

What is written to standard output for each echo reply of a run: the calls of the
parse function and then `print_json_packet`. The members of the object go through
the packet buffer, but the marks for anomalies, the options and the bell are
printed as they occur, in front of the line. Such a text either contains a line
break or begins with something that does not open an object, so one of them is
enough to spoil the line.
-/
set_option autoImplicit false

namespace Iputils.JsonReplies
open MachineInt PingState ByteBuffer InCksum ReceivedTable AckWindow GatherStatistics PrintfText
  JsonText PingJson PingFinish JsonPacket PingOutput PrOptions ParseReply

/-- An accepted echo reply: what is gathered, and the options behind it. -/
structure Echo where
  arrival : Arrival
  opts : List UInt8
  olen : ℕ

/-- The echo reply in a datagram, if it is one to our request. -/
def echoOf (env : Env) (c : Config) (fam : Family) (r : Rts) (sock : SockType) (d : Datagram) :
    Option Echo :=
  match fam with
  | .inet =>
      match readIp sock d with
      | none => none
      | some ip =>
          if byteAt (d.buf.drop ip.hlen) 0 = icmpEchoreply ∧
              isOurs r sock (le16At (d.buf.drop ip.hlen) 4) then
            some ⟨arrival4 env c d ip, ip.opts, ip.olen⟩
          else none
  | .inet6 =>
      if 8 ≤ d.cc ∧ byteAt d.buf 0 = icmp6EchoReply ∧ isOurs r sock (le16At d.buf 4) then
        some ⟨arrival6 env d (be16At d.buf 6) [seqPrint (be16At d.buf 6)] (wrongSource6 c d), [], 0⟩
      else none

/-- The state between two datagrams. -/
structure Stream where
  rts : Rts
  packet : JsonBuffer := {}
  oldRr : List UInt8 := []

/-- One datagram, from the parse function to the print of the packet. -/
def processReply (env : Env) (c : Config) (fam : Family) (sock : SockType) (s : Stream)
    (d : Datagram) : Except JsonFault (Stream × List Char) := do
  let p := parseReply env c fam s.rts sock d s.oldRr
  let t ← writeAll s.rts ⟨s.packet, []⟩ p.prints
  let t := flushPacket p.rts t
  pure (⟨p.rts, t.packet, p.oldRr⟩, t.out)

/-- What each datagram of a run prints. -/
def processReplies (env : Env) (c : Config) (fam : Family) (sock : SockType) :
    Stream → List Datagram → Except JsonFault (List (List Char))
  | _, [] => .ok []
  | s, d :: ds => do
      let (s, out) ← processReply env c fam sock s d
      let outs ← processReplies env c fam sock s ds
      pure (out :: outs)

/-- Exactly one line, which is a JSON object. -/
def OneLine (out : List Char) : Prop := ∃ pairs, EmitsObject out pairs

/-- The clock reads earlier than the time of sending. -/
def GoesBack (tv sent : Timeval) : Prop := (elapsed tv sent).tvSec < 0

/-- The reply is taken to come from the future, and so it is warned about. -/
def Warned (r : Rts) (p : Reply) : Prop := Stamped r p ∧ GoesBack p.tv p.sent

/-- A second reading of the clock is taken and goes back as well. -/
def WarnedAgain (r : Rts) (p : Reply) : Prop := r.optLatency = false ∧ GoesBack p.now p.sent

/-- A reply without anything that is only reported in plain text. -/
structure Unmarked (c : Config) (r : Rts) (e : Echo) : Prop where
  checksum : e.arrival.csfailed = false
  first : c.multicast = true ∨ rcvdTest r.rcvdTbl e.arrival.seq = 0
  source : e.arrival.wrongSource = false
  data : ∀ i : ℕ, 16 ≤ i → (i : ℤ) < r.datalen →
    e.arrival.icmph.getD (8 + i) 0 = r.outpack.getD (8 + i) 0
  bell : c.optAudible = false
  options : Silent e.opts e.olen

/-- The condition under which the output for a reply is one line. With `-q` nothing is
reported, and the line can only be a warning about the clock. -/
def ReplyClean (c : Config) (r : Rts) (e : Echo) : Prop :=
  if r.optQuiet then Warned r e.arrival.reply ∧ ¬ WarnedAgain r e.arrival.reply
  else ¬ Warned r e.arrival.reply ∧ c.optPtimeofday = false ∧
    (Truncated r e.arrival.cc ∨ Unmarked c r e)

/-- Every reply of the run is clean in the state in which it arrives. -/
def CleanRun (env : Env) (c : Config) (fam : Family) (sock : SockType) :
    Rts → List UInt8 → List Datagram → Prop
  | _, _, [] => True
  | r, oldRr, d :: ds =>
      (∀ e ∈ echoOf env c fam r sock d, ReplyClean c r e) ∧
        CleanRun env c fam sock (parseReply env c fam r sock d oldRr).rts
          (parseReply env c fam r sock d oldRr).oldRr ds

section Lines

/-- A text that cannot stand in front of a JSON object on its line. -/
def Spoils (t : List Char) : Prop :=
  ∃ ws x rest, t = ws ++ x :: rest ∧ (∀ c ∈ ws, isWs c = true ∧ c ≠ '\n') ∧
    (x = '\n' ∨ isWs x = false ∧ x ≠ '\x7b')

theorem Spoils.append {t : List Char} (h : Spoils t) (u : List Char) : Spoils (t ++ u) := by
  obtain ⟨ws, x, rest, rfl, hws, hx⟩ := h
  exact ⟨ws, x, rest ++ u, by simp, hws, hx⟩

/-- Text that is empty or spoils the line. -/
def Telling (t : List Char) : Prop := t = [] ∨ Spoils t

theorem Telling.append {t u : List Char} (ht : Telling t) (hu : Telling u) : Telling (t ++ u) := by
  rcases ht with rfl | ht
  · exact hu
  · exact Or.inr (ht.append u)

theorem telling_nil : Telling [] := Or.inl rfl

/-- A text that begins with a character that is neither white space nor a brace. -/
theorem spoils_cons {x : Char} (hx : x = '\n' ∨ isWs x = false ∧ x ≠ '\x7b') (rest : List Char) :
    Spoils (x :: rest) :=
  ⟨[], x, rest, rfl, by simp, hx⟩

/-- A blank in front of such a text changes nothing. -/
theorem Spoils.blank {w : Char} (hw : isWs w = true ∧ w ≠ '\n') {t : List Char} (h : Spoils t) :
    Spoils (w :: t) := by
  obtain ⟨ws, x, rest, rfl, hws, hx⟩ := h
  refine ⟨w :: ws, x, rest, rfl, fun c hc => ?_, hx⟩
  rcases List.mem_cons.mp hc with rfl | hc
  · exact hw
  · exact hws c hc

/-- The only line break of a single line is its last character. -/
theorem eq_nil_of_newline {line front back : List Char} (hline : '\n' ∉ line)
    (h : front ++ '\n' :: back = line ++ ['\n']) : back = [] := by
  by_contra hne
  have hlast : back = back.dropLast ++ [back.getLast hne] := (List.dropLast_append_getLast hne).symm
  rw [hlast] at h
  have hl : front ++ '\n' :: back.dropLast = line := by
    have h' : (front ++ '\n' :: back.dropLast) ++ [back.getLast hne] = line ++ ['\n'] := by
      simpa using h
    exact (List.append_inj' h' rfl).1
  exact hline (hl ▸ by simp)

theorem not_oneLine_of_newline {front back : List Char} (hback : back ≠ []) :
    ¬ OneLine (front ++ '\n' :: back) := by
  intro h
  obtain ⟨pairs, line, hout, hline, -⟩ := h
  exact hback (eq_nil_of_newline hline hout)

theorem not_oneLine_of_spoils {t u : List Char} (ht : Spoils t) (hu : u ≠ []) :
    ¬ OneLine (t ++ u) := by
  obtain ⟨ws, x, rest, rfl, hws, hx⟩ := ht
  have hne : rest ++ u ≠ [] := by simp [hu]
  rw [List.append_assoc, List.cons_append]
  rcases hx with rfl | ⟨hx, hbrace⟩
  · exact not_oneLine_of_newline hne
  · intro h
    obtain ⟨pairs, line, hout, -, hparse⟩ := h
    have hline : line = ws ++ x :: (rest ++ u).dropLast := by
      have h' : (ws ++ x :: (rest ++ u).dropLast) ++ [(rest ++ u).getLast hne] =
          line ++ ['\n'] := by
        rw [← hout, List.append_assoc, List.cons_append, List.dropLast_append_getLast hne]
      exact (List.append_inj' h' rfl).1.symm
    rw [hline] at hparse
    exact parse_ne_obj (fun c hc => (hws c hc).1) hx hbrace pairs hparse

theorem not_oneLine_nil : ¬ OneLine [] := by
  intro h
  obtain ⟨pairs, line, hout, -, -⟩ := h
  simp at hout

end Lines

section Warnings

theorem clean_append {u v : List Char} (hu : Clean u) (hv : Clean v) : Clean (u ++ v) := by
  intro c hc
  rcases List.mem_append.mp hc with h | h
  · exact hu c h
  · exact hv c h

theorem clean_decText (x : ℤ) : Clean (decText x) := fun _ hc => cleanChar_digit (mem_decText hc)

theorem clean_take {u : List Char} (h : Clean u) (n : ℕ) : Clean (u.take n) :=
  fun c hc => h c (List.mem_of_mem_take hc)

/-- One warning or none, depending on the sign of the difference. -/
theorem clockWarning_cases (d : Timeval) :
    (d.tvSec < 0 ∧ ∃ msg, Clean msg ∧ clockWarning d = [.error msg]) ∨
      (¬ d.tvSec < 0 ∧ clockWarning d = []) := by
  unfold clockWarning
  split_ifs with h
  · refine Or.inl ⟨h, _, ?_, rfl⟩
    exact clean_append (clean_append (by decide) (clean_decText _)) (by decide)
  · exact Or.inr ⟨h, rfl⟩

/-- The warnings are none, one or two, and their texts are clean. -/
theorem clockWarnings_cases (r : Rts) (p : Reply) :
    (¬ Warned r p ∧ clockWarnings r p = []) ∨
    (Warned r p ∧ ¬ WarnedAgain r p ∧ ∃ m, Clean m ∧ clockWarnings r p = [.error m]) ∨
    (Warned r p ∧ WarnedAgain r p ∧ ∃ m m', clockWarnings r p = [.error m, .error m']) := by
  unfold clockWarnings Warned WarnedAgain GoesBack
  by_cases hs : Stamped r p
  · rw [if_pos hs]
    dsimp only
    rcases clockWarning_cases (elapsed p.tv p.sent) with ⟨hd, m, hm, hw⟩ | ⟨hd, hw⟩
    · rw [hw]
      by_cases hl : r.optLatency = false
      · rw [if_pos ⟨hd, hl⟩]
        rcases clockWarning_cases (elapsed p.now p.sent) with ⟨hd', m', -, hw'⟩ | ⟨hd', hw'⟩
        · exact Or.inr (Or.inr ⟨⟨hs, hd⟩, ⟨hl, hd'⟩, m, m', by rw [hw']; rfl⟩)
        · exact Or.inr (Or.inl ⟨⟨hs, hd⟩, fun h => hd' h.2, m, hm, by rw [hw']; rfl⟩)
      · rw [if_neg (fun h => hl h.2)]
        exact Or.inr (Or.inl ⟨⟨hs, hd⟩, fun h => hl h.1, m, hm, rfl⟩)
    · rw [hw, if_neg (fun h => hd h.1)]
      exact Or.inl ⟨fun h => hd h.2, rfl⟩
  · rw [if_neg hs]
    exact Or.inl ⟨fun h => hs h.1, rfl⟩

theorem writeAll_errors {r : Rts} (hj : r.optJson = true) (ms : List (List Char))
    (out : List Char) :
    writeAll r ⟨{}, out⟩ (ms.map .error) = .ok ⟨{}, out ++ (ms.map errorLine).flatten⟩ := by
  induction ms generalizing out with
  | nil => simp [writeAll, pure, Except.pure]
  | cons m ms ih =>
      rw [List.map_cons, writeAll_cons, write_error hj, ok_bind, ih]
      simp

theorem oneLine_errorLine {m : List Char} (h : Clean m) : OneLine (errorLine m) := by
  have hplain : ∀ c ∈ [JsonCall.str "error" (m.take (pingErrorMax - 1))], c.Plain := by
    intro c hc
    obtain rfl := List.mem_singleton.mp hc
    exact ⟨by decide, clean_take h _⟩
  have hline : errorLine m =
      objectText [.str "error" (m.take (pingErrorMax - 1))] ++ ['\x7d', '\n'] := by
    simp [errorLine, objectText, moreTexts, JsonCall.text]
  rw [hline]
  exact ⟨_, emitsObject_objectText hplain⟩

/-- An error line is a brace, some text and a line break at its end. -/
theorem errorLine_newline (m : List Char) : ∃ front, errorLine m = front ++ ['\n'] :=
  ⟨'\x7b' :: strText "error" (m.take (pingErrorMax - 1)) ++ ['\x7d'], by simp [errorLine]⟩

end Warnings

section Body

/-- The members of a reply. -/
def replyCalls (c : Config) (r : Rts) (e : Echo) : List JsonCall :=
  [.int "bytes" (Int32.ofInt e.arrival.cc), .str "host" e.arrival.host.text,
   .uint "seq" (UInt32.ofNat e.arrival.seq.toNat)] ++
  (if e.arrival.hops ≥ 0 then [.int "ttl" (Int32.ofInt e.arrival.hops)] else []) ++
  if Truncated r e.arrival.cc then [.str "info" "truncated".toList]
  else if r.timing then
    [.str "time" (outtime c.optRttPrecision (measuredTrip r e.arrival.reply))]
  else []

/-- The marks, the dump of wrong data, the bell and the options. -/
def markTexts (env : Env) (c : Config) (r : Rts) (e : Echo) (oldRr : List UInt8) : List Char :=
  texts (anomalyPrints c r e.arrival (gatherStatistics r e.arrival.reply).2) ++
  (if c.optAudible then ['\x07'] else []) ++
  (prOptions env.names r.optFlood e.opts e.olen oldRr).1

/-- What stands in front of the line of a reply. -/
def replyTexts (env : Env) (c : Config) (r : Rts) (e : Echo) (oldRr : List UInt8) : List Char :=
  texts (printTimestamp c.optPtimeofday e.arrival.stamp) ++
    if Truncated r e.arrival.cc then [] else markTexts env c r e oldRr

variable {env : Env} {c : Config} {fam : Family} {r : Rts} {sock : SockType} {d : Datagram}
  {e : Echo} {oldRr : List UInt8}

theorem printTimestamp_prints (b : Bool) (now : Timeval) :
    calls (printTimestamp b now) = [] ∧ errors (printTimestamp b now) = [] := by
  cases b <;> exact ⟨rfl, rfl⟩

theorem anomalyPrints_prints (dup : Bool) (a : Arrival) :
    calls (anomalyPrints c r a dup) = [] ∧ errors (anomalyPrints c r a dup) = [] := by
  unfold anomalyPrints
  constructor
  · simp only [calls_append]
    split_ifs <;> split <;> rfl
  · simp only [errors_append]
    split_ifs <;> split <;> rfl

/-- The reply is announced by its sequence number and the name of its source. -/
theorem arrival_echoOf (he : echoOf env c fam r sock d = some e) :
    e.arrival.prReply = [seqPrint e.arrival.seq] ∧ e.arrival.host = env.names d.src := by
  unfold echoOf at he
  cases fam with
  | inet =>
      dsimp only at he
      split at he
      · cases he
      · split_ifs at he
        obtain rfl := Option.some.inj he
        exact ⟨rfl, rfl⟩
  | inet6 =>
      dsimp only at he
      split_ifs at he
      obtain rfl := Option.some.inj he
      exact ⟨rfl, rfl⟩

/-- What the parse function does with an accepted reply, for both families. -/
theorem parseReply_echo (he : echoOf env c fam r sock d = some e) (hf : r.optFlood = false) :
    ∃ tail, (parseReply env c fam r sock d oldRr).prints =
        (gatherReply c r e.arrival).prints ++
          (if (gatherReply c r e.arrival).finished then [] else tail) ∧
      (parseReply env c fam r sock d oldRr).rts = (gatherStatistics r e.arrival.reply).1 ∧
      calls tail = [] ∧ errors tail = [] ∧
      texts tail = (if c.optAudible then ['\x07'] else []) ++
        (prOptions env.names r.optFlood e.opts e.olen oldRr).1 := by
  unfold echoOf at he
  cases fam with
  | inet =>
      dsimp only at he
      split at he
      · cases he
      · rename_i ip hip
        split_ifs at he with hacc
        obtain rfl := Option.some.inj he
        have h : Accepted4 r sock d ip := ⟨hip, hacc.1, hacc.2⟩
        refine ⟨(closeReply4 env c r ip oldRr).1, ?_, (ping4ParseReply_counted h oldRr).1, ?_⟩
        · rw [parseReply, ping4ParseReply_accepted h]
          split_ifs
          · exact (List.append_nil _).symm
          · rfl
        · rw [closeReply4, if_neg (by simp [hf])]
          cases c.optAudible <;> simp [calls, errors, texts]
  | inet6 =>
      dsimp only at he
      split_ifs at he with hacc
      obtain rfl := Option.some.inj he
      have hrun : ping6ParseReply env c r sock d = reply6 c r (arrival6 env d (be16At d.buf 6)
          [seqPrint (be16At d.buf 6)] (wrongSource6 c d)) := by
        rw [ping6ParseReply, if_neg (by omega), if_pos hacc.2.1, if_neg (not_not_intro hacc.2.2)]
      have hnil : prOptions env.names r.optFlood [] 0 oldRr = ([], oldRr) := rfl
      refine ⟨closeReply6 c r, ?_, ?_, ?_⟩
      · rw [parseReply, hrun, reply6]
        dsimp only
        split_ifs
        · exact (List.append_nil _).symm
        · rfl
      · rw [parseReply, hrun, reply6]
        exact gatherReply_rts c r _
      · rw [closeReply6, hnil, hf]
        cases c.optAudible <;> exact ⟨rfl, rfl, rfl⟩

theorem gatherReply_quiet (a : Arrival) (hq : r.optQuiet = true) :
    (gatherReply c r a).prints = clockWarnings r a.reply ∧
      (gatherReply c r a).finished = true := by
  simp [gatherReply, hq]

theorem gatherReply_truncated (a : Arrival) (hq : r.optQuiet = false) (hf : r.optFlood = false)
    (ht : Truncated r a.cc) :
    (gatherReply c r a).prints =
        clockWarnings r a.reply ++ (headPrints c r a ++ [truncatedPrint c]) ∧
      (gatherReply c r a).finished = true := by
  simp [gatherReply, hq, hf, ht]

theorem gatherReply_full (a : Arrival) (hq : r.optQuiet = false) (hf : r.optFlood = false)
    (ht : ¬ Truncated r a.cc) :
    (gatherReply c r a).prints =
        clockWarnings r a.reply ++ (headPrints c r a ++ (timePrints c r a.reply ++
          anomalyPrints c r a (gatherStatistics r a.reply).2)) ∧
      (gatherReply c r a).finished = false := by
  simp [gatherReply, hq, hf, ht]

theorem headPrints_prints (hv : c.optVerbose = false) (a : Arrival)
    (hp : a.prReply = [seqPrint a.seq]) :
    errors (headPrints c r a) = [] ∧
    texts (headPrints c r a) = texts (printTimestamp c.optPtimeofday a.stamp) ∧
    calls (headPrints c r a) =
      [.int "bytes" (Int32.ofInt a.cc), .str "host" a.host.text,
       .uint "seq" (UInt32.ofNat a.seq.toNat)] ++
      if a.hops ≥ 0 then [.int "ttl" (Int32.ofInt a.hops)] else [] := by
  obtain ⟨hc, he⟩ := printTimestamp_prints c.optPtimeofday a.stamp
  unfold headPrints
  simp only [hp, hv, Bool.false_eq_true, false_and, if_false, errors_append, texts_append,
    calls_append, hc, he, seqPrint]
  split_ifs <;> simp [errors, texts, calls]

theorem timePrints_prints (p : Reply) :
    errors (timePrints c r p) = [] ∧ texts (timePrints c r p) = [] ∧
    calls (timePrints c r p) =
      if r.timing then [.str "time" (outtime c.optRttPrecision (measuredTrip r p))] else [] := by
  unfold timePrints
  split_ifs <;> exact ⟨rfl, rfl, rfl⟩

/-- The output for a reply behind the warnings: nothing with `-q`, else the members of
the reply and the texts in front of its line. -/
theorem parseReply_body (he : echoOf env c fam r sock d = some e) (hf : r.optFlood = false)
    (hv : c.optVerbose = false) :
    ∃ body, (parseReply env c fam r sock d oldRr).prints =
        clockWarnings r e.arrival.reply ++ body ∧ errors body = [] ∧
      calls body = (if r.optQuiet then [] else replyCalls c r e) ∧
      texts body = (if r.optQuiet then [] else replyTexts env c r e oldRr) := by
  obtain ⟨tail, hprints, -, htc, hte, htt⟩ := @parseReply_echo env c fam r sock d e oldRr he hf
  obtain ⟨hhe, hht, hhc⟩ := @headPrints_prints c r hv e.arrival (arrival_echoOf he).1
  obtain ⟨hme, hmt, hmc⟩ := @timePrints_prints c r e.arrival.reply
  obtain ⟨hac, hae⟩ := @anomalyPrints_prints c r (gatherStatistics r e.arrival.reply).2 e.arrival
  cases hq : r.optQuiet with
  | true =>
      obtain ⟨hg, hfin⟩ := @gatherReply_quiet c r e.arrival hq
      refine ⟨[], ?_, rfl, rfl, rfl⟩
      rw [hprints, hg, hfin, if_pos rfl]
  | false =>
      by_cases ht : Truncated r e.arrival.cc
      · obtain ⟨hg, hfin⟩ := @gatherReply_truncated c r e.arrival hq hf ht
        refine ⟨headPrints c r e.arrival ++ [truncatedPrint c], ?_, ?_, ?_, ?_⟩
        · rw [hprints, hg, hfin, if_pos rfl, List.append_nil]
        · simp [hhe, truncatedPrint, errors]
        · simp [hhc, truncatedPrint, calls, replyCalls, ht]
        · simp [hht, truncatedPrint, texts, replyTexts, ht]
      · obtain ⟨hg, hfin⟩ := @gatherReply_full c r e.arrival hq hf ht
        refine ⟨headPrints c r e.arrival ++ (timePrints c r e.arrival.reply ++
          anomalyPrints c r e.arrival (gatherStatistics r e.arrival.reply).2) ++ tail, ?_, ?_, ?_, ?_⟩
        · rw [hprints, hg, hfin, if_neg Bool.false_ne_true, List.append_assoc]
        · simp [hhe, hme, hae, hte]
        · simp [hhc, hmc, hac, htc, replyCalls, ht]
        · simp [hht, hmt, htt, replyTexts, markTexts, ht]

theorem telling_if {p : Prop} [Decidable p] {t : List Char} (h : Spoils t) :
    Telling (if p then t else []) := by
  split_ifs
  · exact Or.inr h
  · exact telling_nil

theorem spoils_mark (t : List Char) : Spoils (" (".toList ++ t) :=
  (spoils_cons (Or.inr ⟨rfl, by decide⟩) t).blank ⟨rfl, by decide⟩

theorem spoils_of_conspicuous {t : List Char} (h : Conspicuous t) : Spoils t := by
  rcases h with ⟨rest, rfl⟩ | ⟨rest, rfl⟩
  · exact spoils_cons (Or.inl rfl) rest
  · exact (spoils_cons (Or.inr ⟨rfl, by decide⟩) rest).blank ⟨rfl, by decide⟩

/-- The comparison of the data finds nothing. -/
theorem wrongData_eq_none (icmph : List UInt8) :
    wrongData r icmph = none ↔ ∀ i : ℕ, 16 ≤ i → (i : ℤ) < r.datalen →
      icmph.getD (8 + i) 0 = r.outpack.getD (8 + i) 0 := by
  have hsize : timevalSize.toNat = 16 := rfl
  rw [wrongData, List.find?_eq_none, dataIndices, hsize]
  constructor
  · intro h i h₁ h₂
    have hi := h i (List.mem_range'_1.mpr ⟨h₁, by omega⟩)
    simpa using hi
  · intro h i hi
    have hi' := List.mem_range'_1.mp hi
    simpa using h i hi'.1 (by omega)

/-- The four marks one behind the other. -/
theorem texts_anomalyPrints (a : Arrival) (dup : Bool) (hv : c.optVerbose = false) :
    texts (anomalyPrints c r a dup) =
      (if dup = true ∧ c.multicast = false then " (DUP!)".toList else []) ++
      (if a.csfailed then " (BAD CHECKSUM!)".toList else []) ++
      (if a.wrongSource then " (DIFFERENT ADDRESS!)".toList else []) ++
      (match wrongData r a.icmph with
       | some i => wrongDataText r a.icmph i
       | none => []) := by
  unfold anomalyPrints
  simp only [texts_append, hv, Bool.false_eq_true, or_false]
  congr 1
  · split_ifs <;> rfl
  · cases wrongData r a.icmph <;> simp [texts]

theorem telling_anomalies (a : Arrival) (dup : Bool) (hv : c.optVerbose = false) :
    Telling (texts (anomalyPrints c r a dup)) := by
  rw [texts_anomalyPrints a dup hv]
  refine ((Telling.append ?_ ?_).append ?_).append ?_
  · exact telling_if (spoils_mark "DUP!)".toList)
  · exact telling_if (spoils_mark "BAD CHECKSUM!)".toList)
  · exact telling_if (spoils_mark "DIFFERENT ADDRESS!)".toList)
  · split
    · exact Or.inr (spoils_cons (Or.inl rfl) _)
    · exact telling_nil

theorem telling_markTexts (hv : c.optVerbose = false) : Telling (markTexts env c r e oldRr) := by
  refine ((telling_anomalies _ _ hv).append ?_).append ?_
  · exact telling_if (spoils_cons (Or.inr ⟨rfl, by decide⟩) [])
  · by_cases h : Silent e.opts e.olen
    · rw [prOptions_silent _ _ _ h]
      exact telling_nil
    · exact Or.inr (spoils_of_conspicuous (prOptions_conspicuous env.names _ e.opts h oldRr))

theorem wrongDataText_ne_nil (icmph : List UInt8) (i : ℕ) : wrongDataText r icmph i ≠ [] :=
  List.cons_ne_nil '\n' _

theorem anomalies_nil_iff (a : Arrival) (hv : c.optVerbose = false) :
    texts (anomalyPrints c r a (gatherStatistics r a.reply).2) = [] ↔
      a.csfailed = false ∧ (c.multicast = true ∨ rcvdTest r.rcvdTbl a.seq = 0) ∧
        a.wrongSource = false ∧ wrongData r a.icmph = none := by
  rw [texts_anomalyPrints _ _ hv]
  simp only [List.append_eq_nil_iff, ite_eq_right_iff]
  cases hcs : a.csfailed with
  | true => simp
  | false =>
      have hdup := dupflag_iff r a.reply hcs
      have hseq : a.reply.seq = a.seq := rfl
      rw [hseq] at hdup
      rw [hdup]
      cases c.multicast <;> cases a.wrongSource <;> cases hw : wrongData r a.icmph <;>
        simp [wrongDataText_ne_nil]

theorem markTexts_nil_iff (hv : c.optVerbose = false) :
    markTexts env c r e oldRr = [] ↔ Unmarked c r e := by
  have hopts : (prOptions env.names r.optFlood e.opts e.olen oldRr).1 = [] ↔
      Silent e.opts e.olen := by
    by_cases h : Silent e.opts e.olen
    · simp [prOptions_silent env.names r.optFlood e.opts h oldRr, h]
    · have hne := (prOptions_conspicuous env.names r.optFlood e.opts h oldRr).ne_nil
      simp [h, hne]
  have hbell : (if c.optAudible = true then ['\x07'] else []) = [] ↔ c.optAudible = false := by
    cases c.optAudible <;> simp
  unfold markTexts
  simp only [List.append_eq_nil_iff, anomalies_nil_iff _ hv, hopts, hbell, wrongData_eq_none]
  constructor
  · intro h
    obtain ⟨⟨⟨h₁, h₂, h₃, h₄⟩, h₅⟩, h₆⟩ := h
    exact ⟨h₁, h₂, h₃, h₄, h₅, h₆⟩
  · intro h
    exact ⟨⟨⟨h.checksum, h.first, h.source, h.data⟩, h.bell⟩, h.options⟩

/-- Nothing stands in front of the line, or what does spoils it. -/
theorem replyTexts_cases (hv : c.optVerbose = false) :
    (c.optPtimeofday = false ∧ (Truncated r e.arrival.cc ∨ Unmarked c r e) ∧
      replyTexts env c r e oldRr = []) ∨
    (¬ (c.optPtimeofday = false ∧ (Truncated r e.arrival.cc ∨ Unmarked c r e)) ∧
      Spoils (replyTexts env c r e oldRr)) := by
  unfold replyTexts
  cases hp : c.optPtimeofday with
  | true =>
      refine Or.inr ⟨by simp, Spoils.append ?_ _⟩
      exact spoils_cons (Or.inr ⟨rfl, by decide⟩) _
  | false =>
      have hstamp : texts (printTimestamp false e.arrival.stamp) = [] := rfl
      rw [hstamp, List.nil_append]
      by_cases ht : Truncated r e.arrival.cc
      · exact Or.inl ⟨rfl, Or.inl ht, if_pos ht⟩
      · rw [if_neg ht]
        by_cases hu : Unmarked c r e
        · exact Or.inl ⟨rfl, Or.inr hu, (markTexts_nil_iff hv).mpr hu⟩
        · refine Or.inr ⟨by simp [ht, hu], ?_⟩
          refine (telling_markTexts hv).resolve_left fun h => hu ((markTexts_nil_iff hv).mp h)

end Body

section Size
variable {c : Config} {r : Rts} {e : Echo}

theorem length_intText_int (key : String) (x : Int32) :
    (intText key x.toInt).length ≤ key.toList.length + 15 := by
  have hsep : "\": ".toList.length = 3 := rfl
  have h₀ := x.minValue_le_toInt
  have h₁ := x.toInt_le
  simp only [Int32.toInt_minValue, Int32.toInt_maxValue] at h₀ h₁
  have hd : (decText x.toInt).length ≤ 10 + 1 := length_decText_le (by decide) (by omega)
  simp only [intText, keyText, List.length_append, List.length_cons]
  omega

theorem length_intText_uint (key : String) (x : UInt32) :
    (intText key x.toNat).length ≤ key.toList.length + 15 := by
  have hsep : "\": ".toList.length = 3 := rfl
  have h₀ := x.toNat_lt
  have hd : (decText (x.toNat : ℤ)).length ≤ 10 + 1 := length_decText_le (by decide) (by omega)
  simp only [intText, keyText, List.length_append, List.length_cons]
  omega

/-- A bound on the text of one member. -/
def JsonCall.bound : JsonCall → ℕ
  | .str key val => key.toList.length + 6 + val.length
  | .int key _ => key.toList.length + 15
  | .uint key _ => key.toList.length + 15
  | .arr key _ => key.toList.length + 6

theorem length_text_le (call : JsonCall) : call.text.length ≤ JsonCall.bound call := by
  cases call with
  | str key val => exact (length_strText key val).le
  | int key x => exact length_intText_int key x
  | uint key x => exact length_intText_uint key x
  | arr key vals =>
      have hsep : "\": ".toList.length = 3 := rfl
      simp only [JsonCall.text, keyText, JsonCall.bound, List.length_append, List.length_cons]
      omega

/-- The object is not longer than the bounds of its members with their separators. -/
theorem length_objectText_le (calls : List JsonCall) :
    (objectText calls).length ≤ (calls.map fun call => JsonCall.bound call + 2).sum := by
  have hmore : ∀ cs : List JsonCall,
      (moreTexts cs).length ≤ (cs.map fun call => JsonCall.bound call + 2).sum := by
    intro cs
    induction cs with
    | nil => simp [moreTexts]
    | cons call cs ih =>
        have hsep : ", ".toList.length = 2 := rfl
        have ht := length_text_le call
        have hcons : moreTexts (call :: cs) = ", ".toList ++ call.text ++ moreTexts cs := by
          simp [moreTexts]
        rw [hcons]
        simp only [List.length_append, List.map_cons, List.sum_cons]
        omega
  cases calls with
  | nil => simp [objectText]
  | cons call calls =>
      have ht := length_text_le call
      have hm := hmore calls
      simp only [objectText, List.length_append, List.length_cons, List.map_cons, List.sum_cons]
      omega

theorem clean_outtime (precision : Bool) (t : ℤ) : Clean (outtime precision t) := by
  unfold outtime
  apply clean_take
  split_ifs
  · exact clean_point _ _ _
  · exact clean_decText _
  · exact clean_point _ _ _
  · exact clean_point _ _ _
  · exact clean_point _ _ _

theorem length_outtime (precision : Bool) (t : ℤ) : (outtime precision t).length ≤ 29 :=
  List.length_take_le _ _

/-- With a clean host the members are read back, and they fit the buffer. -/
theorem printable_replyCalls (hh : Clean e.arrival.host.text) : Printable (replyCalls c r e) := by
  constructor
  · intro call hcall
    simp only [replyCalls, List.mem_append, List.mem_cons, List.not_mem_nil, or_false] at hcall
    rcases hcall with ((rfl | rfl | rfl) | h) | h
    · exact (by decide : Clean "bytes".toList)
    · exact ⟨by decide, hh⟩
    · exact (by decide : Clean "seq".toList)
    · split_ifs at h
      · obtain rfl := List.mem_singleton.mp h
        exact (by decide : Clean "ttl".toList)
      · simp at h
    · split_ifs at h
      · obtain rfl := List.mem_singleton.mp h
        exact ⟨by decide, by decide⟩
      · obtain rfl := List.mem_singleton.mp h
        exact ⟨by decide, clean_outtime _ _⟩
      · simp at h
  · have hhost := e.arrival.host.length_text
    have htime := length_outtime c.optRttPrecision (measuredTrip r e.arrival.reply)
    have h₁ : "bytes".toList.length = 5 := rfl
    have h₂ : "host".toList.length = 4 := rfl
    have h₃ : "seq".toList.length = 3 := rfl
    have h₄ : "ttl".toList.length = 3 := rfl
    have h₅ : "info".toList.length = 4 := rfl
    have h₆ : "truncated".toList.length = 9 := rfl
    have h₇ : "time".toList.length = 4 := rfl
    refine (length_objectText_le _).trans ?_
    unfold replyCalls pingJsonMax
    split_ifs <;>
      simp only [List.map_append, List.map_cons, List.map_nil, List.sum_append, List.sum_cons,
        List.sum_nil, JsonCall.bound] <;>
      omega

end Size

section Run
variable {env : Env} {c : Config} {fam : Family} {r : Rts} {sock : SockType} {d : Datagram}
  {e : Echo} {oldRr : List UInt8}

theorem flushPacket_objectText (hj : r.optJson = true) (cs : List JsonCall) (out : List Char) :
    flushPacket r ⟨.ofText (objectText cs), out⟩ = ⟨{}, out ++ packetLine cs⟩ := by
  cases cs with
  | nil => simp [flushPacket, printJsonPacket, JsonBuffer.ofText, objectText, packetLine]
  | cons call cs =>
      simp [flushPacket, printJsonPacket, JsonBuffer.ofText, objectText, packetLine, hj]

/-- Warnings, texts, members: the output for one reply. -/
theorem processReply_echo (he : echoOf env c fam r sock d = some e) (hj : r.optJson = true)
    (hf : r.optFlood = false) (hv : c.optVerbose = false) (hh : Clean e.arrival.host.text)
    {ms : List (List Char)} (hms : clockWarnings r e.arrival.reply = ms.map .error) :
    processReply env c fam sock ⟨r, {}, oldRr⟩ d =
      .ok (⟨(parseReply env c fam r sock d oldRr).rts, {},
          (parseReply env c fam r sock d oldRr).oldRr⟩,
        (ms.map errorLine).flatten ++
          if r.optQuiet then [] else replyTexts env c r e oldRr ++ packetLine (replyCalls c r e)) := by
  obtain ⟨body, hprints, herr, hcalls, htexts⟩ :=
    @parseReply_body env c fam r sock d e oldRr he hf hv
  obtain ⟨-, -, hrts, -⟩ := @parseReply_echo env c fam r sock d e oldRr he hf
  have hj' : (parseReply env c fam r sock d oldRr).rts.optJson = true := by
    rw [hrts, gatherStatistics_frame]
    exact hj
  have hprintable : Printable (calls body) := by
    rw [hcalls]
    split_ifs
    · exact ⟨by simp, by simp [objectText]⟩
    · exact printable_replyCalls hh
  rw [processReply, hprints]
  dsimp only
  rw [writeAll_append, hms, writeAll_errors hj, ok_bind, writeAll_members hj herr,
    foldlM_constructJson_empty hj hprintable, Except.map, ok_bind, flushPacket_objectText hj', hcalls,
    htexts]
  cases r.optQuiet with
  | true => simp [packetLine, pure, Except.pure]
  | false => simp [pure, Except.pure]

theorem replyCalls_ne_nil : replyCalls c r e ≠ [] :=
  List.cons_ne_nil _ _

/-- The line of the reply itself. -/
theorem oneLine_packetLine (hh : Clean e.arrival.host.text) :
    OneLine (packetLine (replyCalls c r e)) := by
  have hp := (@printable_replyCalls c r e hh).plain
  rw [packetLine, if_neg replyCalls_ne_nil]
  cases hcs : replyCalls c r e with
  | nil => exact absurd hcs replyCalls_ne_nil
  | cons call cs =>
      rw [hcs] at hp
      exact ⟨_, emitsObject_objectText hp⟩

theorem packetLine_ne_nil : packetLine (replyCalls c r e) ≠ [] := by
  rw [packetLine, if_neg replyCalls_ne_nil]
  exact List.append_ne_nil_of_right_ne_nil _ (List.cons_ne_nil _ _)

/-- An error line with anything behind it is more than one line. -/
theorem not_oneLine_errorLine (m : List Char) {u : List Char} (hu : u ≠ []) :
    ¬ OneLine (errorLine m ++ u) := by
  obtain ⟨front, hfront⟩ := errorLine_newline m
  rw [hfront, List.append_assoc, List.singleton_append]
  exact not_oneLine_of_newline hu

/-- The output for a reply is one line exactly when the reply is clean. -/
theorem processReply_oneLine (he : echoOf env c fam r sock d = some e) (hj : r.optJson = true)
    (hf : r.optFlood = false) (hv : c.optVerbose = false) (hh : Clean e.arrival.host.text) :
    ∃ out, processReply env c fam sock ⟨r, {}, oldRr⟩ d =
        .ok (⟨(parseReply env c fam r sock d oldRr).rts, {},
          (parseReply env c fam r sock d oldRr).oldRr⟩, out) ∧
      (OneLine out ↔ ReplyClean c r e) := by
  unfold ReplyClean
  rcases clockWarnings_cases r e.arrival.reply with
    ⟨hw, hms⟩ | ⟨hw, hw', m, hm, hms⟩ | ⟨hw, hw', m, m', hms⟩
  · refine ⟨_, @processReply_echo env c fam r sock d e oldRr he hj hf hv hh [] hms, ?_⟩
    simp only [List.map_nil, List.flatten_nil, List.nil_append, hw, false_and, not_false_eq_true,
      true_and]
    cases r.optQuiet with
    | true => simp [not_oneLine_nil]
    | false =>
        simp only [Bool.false_eq_true, if_false]
        rcases @replyTexts_cases env c r e oldRr hv with ⟨hp, hu, htexts⟩ | ⟨hno, hs⟩
        · rw [htexts, List.nil_append]
          exact iff_of_true (oneLine_packetLine hh) ⟨hp, hu⟩
        · exact iff_of_false (not_oneLine_of_spoils hs packetLine_ne_nil) hno
  · refine ⟨_, @processReply_echo env c fam r sock d e oldRr he hj hf hv hh [m] hms, ?_⟩
    simp only [List.map_cons, List.map_nil, List.flatten_cons, List.flatten_nil, List.append_nil,
      hw, hw', not_true_eq_false, false_and, not_false_eq_true, and_self]
    cases r.optQuiet with
    | true => simpa using oneLine_errorLine hm
    | false =>
        simp only [Bool.false_eq_true, if_false, iff_false]
        exact not_oneLine_errorLine m (List.append_ne_nil_of_right_ne_nil _ packetLine_ne_nil)
  · refine ⟨_, @processReply_echo env c fam r sock d e oldRr he hj hf hv hh [m, m'] hms, ?_⟩
    have hne : errorLine m' ≠ [] := by simp [errorLine]
    simp only [List.map_cons, List.map_nil, List.flatten_cons, List.flatten_nil, List.append_nil,
      List.append_assoc, hw, hw', not_true_eq_false, false_and, and_false, ite_self, iff_false]
    exact not_oneLine_errorLine m (List.append_ne_nil_of_left_ne_nil hne _)

/-- Whether a datagram is accepted does not change in the course of a run. -/
theorem echoOf_congr {r' : Rts} (h : r'.ident = r.ident) :
    echoOf env c fam r' sock d = echoOf env c fam r sock d := by
  have hours : ∀ id, isOurs r' sock id ↔ isOurs r sock id := by
    intro id
    rw [isOurs, isOurs, h]
  simp only [echoOf, hours]

/-- In JSON mode, for every run of accepted echo replies, what is written for each
reply is one JSON object on a line of its own if and only if the reply is clean. -/
theorem replies_one_line_iff {r : Rts} (hj : r.optJson = true) (hf : r.optFlood = false)
    (hv : c.optVerbose = false) {ds : List Datagram}
    (hacc : ∀ d ∈ ds, (echoOf env c fam r sock d).isSome)
    (hhost : ∀ d ∈ ds, Clean (env.names d.src).text) (oldRr : List UInt8) :
    ∃ outs, processReplies env c fam sock ⟨r, {}, oldRr⟩ ds = .ok outs ∧
      outs.length = ds.length ∧
      ((∀ out ∈ outs, OneLine out) ↔ CleanRun env c fam sock r oldRr ds) := by
  induction ds generalizing r oldRr with
  | nil => exact ⟨[], rfl, rfl, by simp [CleanRun]⟩
  | cons d ds ih =>
      obtain ⟨e, he⟩ := Option.isSome_iff_exists.mp (hacc d List.mem_cons_self)
      have hh : Clean e.arrival.host.text := by
        rw [(arrival_echoOf he).2]
        exact hhost d List.mem_cons_self
      obtain ⟨out, hout, hone⟩ := @processReply_oneLine env c fam r sock d e oldRr he hj hf hv hh
      obtain ⟨-, -, hrts, -⟩ := @parseReply_echo env c fam r sock d e oldRr he hf
      have hframe := gatherStatistics_frame r e.arrival.reply
      rw [← hrts] at hframe
      have hident : (parseReply env c fam r sock d oldRr).rts.ident = r.ident := by rw [hframe]
      obtain ⟨outs, houts, hlen, hall⟩ := @ih (parseReply env c fam r sock d oldRr).rts
        (by rw [hframe]; exact hj) (by rw [hframe]; exact hf)
        (fun d' hd' => by rw [echoOf_congr hident]; exact hacc d' (List.mem_cons_of_mem d hd'))
        (fun d' hd' => hhost d' (List.mem_cons_of_mem d hd'))
        (parseReply env c fam r sock d oldRr).oldRr
      refine ⟨out :: outs, ?_, by rw [List.length_cons, List.length_cons, hlen], ?_⟩
      · rw [processReplies, hout, ok_bind]
        dsimp only
        rw [houts]
        rfl
      · rw [List.forall_mem_cons, hone, hall, CleanRun, he]
        simp

end Run

/-- An echo reply without data from the given address. -/
def bareReply (src : List UInt8) : Datagram where
  buf := [129, 0, 0, 0, 0, 0, 0, 1]
  cc := 8
  src := src

def bareRts : Rts := { optJson := true, datalen := 0 }

theorem replies_one_line_iff_bare :
    ∃ outs, processReplies plainEnv {} .inet6 .dgram ⟨bareRts, {}, []⟩
        [bareReply (List.replicate 15 0 ++ [1])] = .ok outs ∧
      outs.length = 1 ∧ ∀ out ∈ outs, OneLine out := by
  obtain ⟨outs, houts, hlen, hall⟩ := @replies_one_line_iff plainEnv {} .inet6 .dgram bareRts rfl
    rfl rfl [bareReply (List.replicate 15 0 ++ [1])] (by decide +kernel)
    (fun d _ => (by decide : Clean [])) []
  refine ⟨outs, houts, hlen, hall.mpr ⟨?_, trivial⟩⟩
  intro e he
  obtain rfl := Option.some.inj (he.symm.trans (rfl : _ = some _))
  refine ⟨fun h => absurd h.1.1 Bool.false_ne_true, rfl, Or.inr ⟨rfl, Or.inr ?_, rfl, ?_, rfl, ?_⟩⟩
  · exact rcvdTest_empty _
  · intro i _ hi
    exact absurd hi (by change ¬ (i : ℤ) < 0; omega)
  · exact trivial

/-- The reply of another host: the mark stands in front of the object. -/
theorem different_address_spoils :
    ¬ ∃ outs, processReplies plainEnv {} .inet6 .dgram ⟨bareRts, {}, []⟩
        [bareReply (List.replicate 15 0 ++ [2])] = .ok outs ∧ ∀ out ∈ outs, OneLine out := by
  intro h
  obtain ⟨outs, houts, hall⟩ := h
  obtain ⟨out, hout, hone⟩ := @processReply_oneLine plainEnv {} .inet6 bareRts .dgram
    (bareReply (List.replicate 15 0 ++ [2])) _ [] rfl rfl rfl rfl (by decide : Clean [])
  rw [processReplies, hout, ok_bind] at houts
  obtain rfl := Except.ok.inj houts
  obtain ⟨-, -, ht | hu⟩ := hone.mp (hall out List.mem_cons_self)
  · exact absurd ht (by decide)
  · exact absurd hu.source (by decide)

end Iputils.JsonReplies
