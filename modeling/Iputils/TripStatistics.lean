import Mathlib.Algebra.Order.BigOperators.Group.List
import Mathlib.Algebra.Order.Ring.Int
import Iputils.MainLoop
import Iputils.PingFinish
import Iputils.DuplicateDetection

/-!
# The trip times of a run

`gather_statistics` adds the trip time of a reply to the sums under one condition and
counts the reply under another. Along a run of the main loop the samples that were
added are kept beside the state; no function reads them. The average lies between the
extremes exactly when every undamaged reply was long enough to be timed. The moving
average lies between the extremes in any case.
-/
set_option autoImplicit false

namespace Iputils.TripStatistics
open MachineInt PingState ReceivedTable AckWindow GatherStatistics ParseReply ErrorQueue MainLoop
open PrintfText PingFinish
open Pinger (Errno ErrorMsg PingerState Verdict SendResult slowDown hardLocalError outOfMemory)

/-- The `tmavg` of `ping_print_statistics` and the `tavg` of `status`. -/
def average (r : Rts) : ℤ := r.tsum.tdiv (r.nreceived + r.nrepeats)

/-- The line of `status`. -/
def statusText (r : Rts) : List Char :=
  '\r' :: decText r.nreceived ++ '/' :: decText r.ntransmitted ++ " packets, ".toList ++
    decText (DuplicateDetection.statusLoss r) ++ "% loss".toList ++
    (if Timed r then
      ", min/avg/ewma/max = ".toList ++ msText r.tmin ++ '/' :: avgText (average r) ++ '/' ::
        decText (i32 (r.rtt / 8000)) ++ '.' :: padText 3 (i32 (r.rtt / 8 % 1000)) ++ '/' ::
        msText r.tmax ++ " ms".toList
    else []) ++ ['\n']

/-! ## The samples of a run -/

/-- A reply that holds a whole `struct timeval` behind its header. -/
def Timeable (p : Reply) : Prop := p.cc ≥ 8 + timevalSize

instance (p : Reply) : Decidable (Timeable p) := inferInstanceAs (Decidable (_ ≥ _))

/-- The trip time that a reply adds to the sums. -/
def sampleOf (r : Rts) (p : Reply) : Option ℤ :=
  if r.timing = true ∧ Timeable p ∧ p.csfailed = false then some (triptime r.optLatency p).1
  else none

section Runs
variable (k : Setup)

/-- The reply that a step of the main loop gathers. -/
def replyOf (s : Loop) (i : Input) : Option Reply :=
  match s.pc, i with
  | .receive _ _, .datagram d =>
      match effect k.env k.config k.fam s.pinger.rts k.sock d with
      | .reply p => some p
      | .nothing | .acknowledged _ => none
  | _, _ => none

/-- The samples of a run. -/
def samples : Loop → List Input → List ℤ
  | _, [] => []
  | s, i :: is =>
      ((replyOf k s i).bind (sampleOf s.pinger.rts)).toList ++ samples (step k s i) is

/-- The replies of a run whose checksum is right. -/
def undamaged : Loop → List Input → List Reply
  | _, [] => []
  | s, i :: is =>
      ((replyOf k s i).filter fun p => ! p.csfailed).toList ++ undamaged (step k s i) is

end Runs

/-- The figures as `main` initialises them. -/
def fresh (r : Rts) : Rts :=
  { r with nreceived := 0, nrepeats := 0, tmin := longMax, tmax := 0, tsum := 0, rtt := 0 }

/-! ## What a step does to the figures -/

/-- The part of the state that the figures are made from. -/
structure Figures where
  timing : Bool
  nreceived : ℤ
  nrepeats : ℤ
  tmin : ℤ
  tmax : ℤ
  tsum : ℤ
  rtt : ℤ

def figures (r : Rts) : Figures :=
  ⟨r.timing, r.nreceived, r.nrepeats, r.tmin, r.tmax, r.tsum, r.rtt⟩

@[simp] theorem figures_acknowledge (r : Rts) (seq : ℤ) :
    figures (acknowledge r seq) = figures r := by
  rw [acknowledge_frame]
  rfl

@[simp] theorem figures_advanceNtransmitted (r : Rts) :
    figures (advanceNtransmitted r) = figures r := rfl

@[simp] theorem figures_slowDown (r : Rts) : figures (slowDown r) = figures r := by
  unfold slowDown
  dsimp only
  split_ifs <;> rfl

section Steps
variable {k : Setup}

@[simp] theorem figures_sendState (r : Rts) (outpack : List UInt8) :
    figures (sendState k r outpack) = figures r := by
  rw [sendState_frame]
  rfl

theorem figures_account {fam : Family} {r : Rts} {errno : Errno} {m : ErrorMsg}
    {o : Rts × ℤ × Errno} (h : account fam r errno m = .ok o) : figures o.1 = figures r := by
  cases m with
  | malformed => cases h
  | unread again | foreign | otherOrigin =>
      obtain rfl := Except.ok.inj h
      rfl
  | localError =>
      obtain rfl := Except.ok.inj h
      dsimp only
      split_ifs <;> rfl
  | icmp seq =>
      obtain rfl := Except.ok.inj h
      dsimp only
      rw [countError_frame]
      rfl

theorem figures_settleError (p : PingerState) (o : Rts × ℤ × Errno) :
    figures (verdictRts (settleError p o)) = figures o.1 := by
  unfold settleError
  split_ifs <;> rfl

theorem figures_outOfMemory (p : PingerState) :
    figures (verdictRts (outOfMemory p)) = figures p.rts := by
  unfold outOfMemory
  extract_lets r nores nores' t
  split_ifs <;> exact figures_slowDown p.rts

theorem figures_trySend (s : Loop) (a : Send) :
    figures (trySend k s a).pinger.rts = figures s.pinger.rts := by
  cases hs : sendOnce k s.pinger a with
  | error f => rw [trySend, hs]
  | ok v =>
      rw [trySend_rts hs]
      rcases sendOnce_cases hs with ⟨-, next, rfl⟩ | ⟨-, rfl⟩ | ⟨-, tokens, rfl⟩ | ⟨-, rfl⟩ |
        ⟨e, o, -, ho, rfl⟩
      · exact figures_sendState _ _
      · exact (figures_outOfMemory _).trans (figures_sendState _ _)
      · exact figures_sendState _ _
      · exact figures_sendState _ _
      · exact (figures_settleError _ o).trans ((figures_account ho).trans (figures_sendState _ _))

theorem figures_takeError (s : Loop) (errno : Errno) (q : QueueRead) (recvError : Bool) :
    figures (takeError k s errno q recvError).pinger.rts = figures s.pinger.rts := by
  rw [takeError_eq]
  split_ifs
  · rfl
  · cases ho : account k.fam s.pinger.rts errno (k.kind s.pinger.rts q) with
    | error f => rfl
    | ok o =>
        dsimp only
        rw [settleReceive_rts]
        exact figures_account ho

end Steps

section Steps
variable {k : Setup}

theorem figures_passGate (s : Loop) (now : Timespec) :
    figures (passGate s now).pinger.rts = figures s.pinger.rts := by
  unfold passGate
  cases hg : Pinger.openGate s.pinger now with
  | error f => rfl
  | ok g =>
      cases g with
      | wait next =>
          dsimp only
          rw [afterPinger_rts]
      | send p =>
          dsimp only
          rw [openGate_send hg]
          rfl

theorem figures_awaitInput (s : Loop) (next : ℤ) (revents : Option Bool) :
    figures (awaitInput k s next revents).pinger.rts = figures s.pinger.rts := by
  cases revents with
  | none =>
      simp only [awaitInput]
      split_ifs <;> rfl
  | some pollerr =>
      simp only [awaitInput]
      split_ifs <;> rfl

/-- Only a reply changes the figures. -/
theorem figures_step (s : Loop) (i : Input) :
    figures (step k s i).pinger.rts =
      match replyOf k s i with
      | none => figures s.pinger.rts
      | some p => figures (gatherStatistics s.pinger.rts p).1 := by
  obtain ⟨p, waittime, snapshot, pc⟩ := s
  cases i with
  | sigexit | sigstatus | interrupted => cases pc <;> rfl
  | check =>
      cases pc with
      | top =>
          change figures (checkExit _).pinger.rts = _
          unfold checkExit
          split_ifs <;> rfl
      | gate | resend | wait next | receive polling recvError | left | halted f => rfl
  | clock now =>
      cases pc with
      | gate => exact figures_passGate _ now
      | top | resend | wait next | receive polling recvError | left | halted f => rfl
  | send a =>
      cases pc with
      | resend => exact figures_trySend _ a
      | top | gate | wait next | receive polling recvError | left | halted f => rfl
  | wait revents =>
      cases pc with
      | wait next => exact figures_awaitInput _ next revents
      | top | gate | resend | receive polling recvError | left | halted f => rfl
  | datagram d =>
      cases pc with
      | receive polling recvError =>
          change figures (takeDatagram k _ d recvError).pinger.rts = _
          rw [takeDatagram_eq]
          dsimp only [afterReceive, replyOf]
          cases effect k.env k.config k.fam p.rts k.sock d with
          | nothing => rfl
          | acknowledged seq => exact figures_acknowledge p.rts seq
          | reply p => rfl
      | top | gate | resend | wait next | left | halted f => rfl
  | recvFailed errno q =>
      cases pc with
      | receive polling recvError => exact figures_takeError _ errno q recvError
      | top | gate | resend | wait next | left | halted f => rfl

end Steps

/-! ## What a reply does to the figures -/

theorem figures_countReply (r : Rts) (p : Reply) :
    figures (countReply r p) = { figures r with nreceived := r.nreceived + 1 } := by
  unfold countReply
  split_ifs
  · rfl
  · rw [figures_acknowledge]
    rfl

theorem sampleOf_countReply (r : Rts) (p : Reply) : sampleOf (countReply r p) p = sampleOf r p := by
  rw [countReply_frame]
  rfl

/-- The figures behind the sample of a reply. -/
def addSample (f : Figures) : Option ℤ → Figures
  | none => f
  | some t =>
      { f with
        tsum := f.tsum + t
        tmin := if t < f.tmin then t else f.tmin
        tmax := if t > f.tmax then t else f.tmax
        rtt := if f.rtt = 0 then u64 (u64 t * 8) else u64 (f.rtt + (t - f.rtt / 8)) }

theorem figures_recordTrip (r : Rts) (p : Reply) :
    figures (recordTrip r p) = addSample (figures r) (sampleOf r p) := by
  by_cases htimed : r.timing = true ∧ p.cc ≥ 8 + timevalSize
  · by_cases hck : p.csfailed = true
    · have hsample : sampleOf r p = none := if_neg fun h => Bool.eq_false_iff.mp h.2.2 hck
      simp only [recordTrip, if_pos htimed, if_pos hck, hsample]
      rfl
    · have hsample : sampleOf r p = some (triptime r.optLatency p).1 :=
        if_pos ⟨htimed.1, htimed.2, Bool.eq_false_of_not_eq_true hck⟩
      simp only [recordTrip, if_pos htimed, if_neg hck, hsample]
      split_ifs <;> rfl
  · have hsample : sampleOf r p = none := if_neg fun h => htimed ⟨h.1, h.2.1⟩
    simp only [recordTrip, if_neg htimed, hsample]
    rfl

theorem addSample_nreceived (f : Figures) (n : ℤ) (sample : Option ℤ) :
    addSample { f with nreceived := n } sample = { addSample f sample with nreceived := n } := by
  cases sample <;> rfl

/-- An undamaged reply counts once, as received or as repeated; its sample is added. -/
theorem figures_gatherStatistics (r : Rts) (p : Reply) :
    ∃ n d, (r.nreceived ≤ n ∧ r.nrepeats ≤ d ∧
        n + d = r.nreceived + r.nrepeats + (if p.csfailed then 0 else 1)) ∧
      figures (gatherStatistics r p).1 =
        { addSample (figures r) (sampleOf r p) with nreceived := n, nrepeats := d } := by
  have hrec : figures (recordTrip (countReply r p) p) =
      { addSample (figures r) (sampleOf r p) with nreceived := r.nreceived + 1 } := by
    rw [figures_recordTrip, figures_countReply, sampleOf_countReply, addSample_nreceived]
  have hl := ledger_gatherStatistics r p
  have hn := congrArg Ledger.received hl
  have hd := congrArg Ledger.repeats hl
  refine ⟨(gatherStatistics r p).1.nreceived, (gatherStatistics r p).1.nrepeats, ?_, ?_⟩
  · have hn' : (gatherStatistics r p).1.nreceived = _ := hn
    have hd' : (gatherStatistics r p).1.nrepeats = _ := hd
    rw [hn', hd']
    dsimp only [ledger]
    split_ifs
    · exact ⟨le_rfl, le_rfl, (add_zero _).symm⟩
    · exact ⟨le_rfl, by dsimp only; omega, (add_assoc _ _ _).symm⟩
    · exact ⟨by dsimp only; omega, le_rfl, by dsimp only; omega⟩
  · have hframe : figures (gatherStatistics r p).1 =
        { figures (recordTrip (countReply r p) p) with
          nreceived := (gatherStatistics r p).1.nreceived
          nrepeats := (gatherStatistics r p).1.nrepeats } := by
      unfold gatherStatistics settleReply
      split_ifs <;> rfl
    rw [hframe, hrec]

/-! ## The samples that the figures stand for -/

theorem tripOf_elapsed (tv sent : Timeval) :
    0 ≤ tripOf (elapsed tv sent) ∧ tripOf (elapsed tv sent) ≤ 2147999999 := by
  have h := elapsed_usec tv sent
  unfold tripOf tvSecMaxVal
  split_ifs
  · exact ⟨by omega, by omega⟩
  · exact ⟨by omega, by omega⟩
  · exact ⟨by omega, by omega⟩

theorem triptime_range (optLatency : Bool) (p : Reply) :
    0 ≤ (triptime optLatency p).1 ∧ (triptime optLatency p).1 ≤ 2147999999 := by
  unfold triptime
  dsimp only
  split_ifs
  · exact tripOf_elapsed p.now p.sent
  · exact tripOf_elapsed p.tv p.sent

/-- A bound for trip times below which the moving average cannot overflow. -/
def tripBound : ℤ := 4294967296

theorem sampleOf_range {r : Rts} {p : Reply} {t : ℤ} (h : sampleOf r p = some t) :
    0 ≤ t ∧ t < tripBound := by
  unfold sampleOf at h
  split_ifs at h
  · obtain rfl := Option.some.inj h
    have hr := triptime_range r.optLatency p
    unfold tripBound
    exact ⟨hr.1, by omega⟩

/-- The figures are those of the samples `xs`. The moving average is kept in eighths. -/
structure Sampled (xs : List ℤ) (f : Figures) : Prop where
  sum : f.tsum = xs.sum
  low : ∀ x ∈ xs, f.tmin ≤ x
  high : ∀ x ∈ xs, x ≤ f.tmax
  bottom : 0 ≤ f.tmin
  top : f.tmax < tripBound
  start : xs = [] → f.rtt = 0
  ewma : xs ≠ [] → 8 * f.tmin ≤ f.rtt ∧ f.rtt ≤ 8 * f.tmax

theorem sampled_fresh (r : Rts) : Sampled [] (figures (fresh r)) where
  sum := rfl
  low := by simp
  high := by simp
  bottom := (by decide : 0 ≤ longMax)
  top := (by decide : 0 < tripBound)
  start := fun _ => rfl
  ewma := fun h => absurd rfl h

section Sample
variable {xs : List ℤ} {f : Figures} {t : ℤ}

theorem addSample_tmin (f : Figures) (t : ℤ) :
    (addSample f (some t)).tmin ≤ t ∧ (addSample f (some t)).tmin ≤ f.tmin := by
  dsimp only [addSample]
  split_ifs
  · exact ⟨le_rfl, by omega⟩
  · exact ⟨by omega, le_rfl⟩

theorem addSample_tmax (f : Figures) (t : ℤ) :
    t ≤ (addSample f (some t)).tmax ∧ f.tmax ≤ (addSample f (some t)).tmax := by
  dsimp only [addSample]
  split_ifs
  · exact ⟨le_rfl, by omega⟩
  · exact ⟨by omega, le_rfl⟩

/-- The update of the moving average as exact arithmetic: nothing wraps. -/
theorem addSample_rtt (h : Sampled xs f) (h₀ : 0 ≤ t) (h₁ : t < tripBound) :
    (addSample f (some t)).rtt = (if f.rtt = 0 then 8 * t else f.rtt - f.rtt / 8 + t) ∧
      0 ≤ f.rtt ∧ f.rtt < 8 * tripBound := by
  have hrtt : 0 ≤ f.rtt ∧ f.rtt < 8 * tripBound := by
    by_cases hxs : xs = []
    · rw [h.start hxs]
      exact ⟨le_rfl, by decide⟩
    · have hb := h.bottom
      have ht := h.top
      have he := h.ewma hxs
      exact ⟨by omega, by omega⟩
  refine ⟨?_, hrtt⟩
  unfold tripBound at h₁ hrtt
  dsimp only [addSample, u64]
  split_ifs
  · omega
  · omega

/-- One more sample keeps the average in eighths between the extremes: seven eighths of
it, with the residue of the division, stay between seven times the extremes. -/
theorem addSample_ewma (h : Sampled xs f) (h₀ : 0 ≤ t) (h₁ : t < tripBound) :
    8 * (addSample f (some t)).tmin ≤ (addSample f (some t)).rtt ∧
      (addSample f (some t)).rtt ≤ 8 * (addSample f (some t)).tmax := by
  have hmin := addSample_tmin f t
  have hmax := addSample_tmax f t
  rw [(addSample_rtt h h₀ h₁).1]
  by_cases hzero : f.rtt = 0
  · rw [if_pos hzero]
    exact ⟨by omega, by omega⟩
  · have hxs : xs ≠ [] := fun hxs => hzero (h.start hxs)
    have he := h.ewma hxs
    rw [if_neg hzero]
    exact ⟨by omega, by omega⟩

theorem Sampled.more (h : Sampled xs f) (sample : Option ℤ)
    (hrange : ∀ t, sample = some t → 0 ≤ t ∧ t < tripBound) :
    Sampled (xs ++ sample.toList) (addSample f sample) := by
  cases sample with
  | none =>
      rw [Option.toList_none, List.append_nil]
      exact h
  | some t =>
      obtain ⟨h₀, h₁⟩ := hrange t rfl
      have hmin := addSample_tmin f t
      have hmax := addSample_tmax f t
      refine ⟨?_, ?_, ?_, ?_, ?_, by simp, fun _ => addSample_ewma h h₀ h₁⟩
      · simp [addSample, h.sum]
      · intro x hx
        rcases List.mem_append.mp hx with hx | hx
        · exact hmin.2.trans (h.low x hx)
        · obtain rfl : x = t := by simpa using hx
          exact hmin.1
      · intro x hx
        rcases List.mem_append.mp hx with hx | hx
        · exact (h.high x hx).trans hmax.2
        · obtain rfl : x = t := by simpa using hx
          exact hmax.1
      · have hb := h.bottom
        dsimp only [addSample]
        split_ifs
        · exact h₀
        · exact hb
      · have ht := h.top
        dsimp only [addSample]
        split_ifs
        · exact h₁
        · exact ht

end Sample

/-- The counters of replies do not matter for the samples. -/
theorem Sampled.counters {xs : List ℤ} {f : Figures} (h : Sampled xs f) (n d : ℤ) :
    Sampled xs { f with nreceived := n, nrepeats := d } :=
  ⟨h.sum, h.low, h.high, h.bottom, h.top, h.start, h.ewma⟩

theorem addSample_timing (f : Figures) (sample : Option ℤ) :
    (addSample f sample).timing = f.timing := by
  cases sample <;> rfl

section Runs
variable {k : Setup}

/-- One step of the loop adds the sample of its reply, if there is one. -/
theorem sampled_step {xs : List ℤ} {s : Loop} (h : Sampled xs (figures s.pinger.rts)) (i : Input) :
    Sampled (xs ++ ((replyOf k s i).bind (sampleOf s.pinger.rts)).toList)
      (figures (step k s i).pinger.rts) := by
  rw [figures_step]
  cases replyOf k s i with
  | none =>
      rw [Option.bind_none, Option.toList_none, List.append_nil]
      exact h
  | some p =>
      obtain ⟨n, d, -, hf⟩ := figures_gatherStatistics s.pinger.rts p
      dsimp only
      rw [hf, Option.bind_some]
      exact (h.more _ fun t ht => sampleOf_range ht).counters n d

theorem sampled_run {xs : List ℤ} {s : Loop} (h : Sampled xs (figures s.pinger.rts))
    (is : List Input) :
    Sampled (xs ++ samples k s is) (figures (run k s is).pinger.rts) := by
  induction is generalizing xs s with
  | nil => simpa [samples, run] using h
  | cons i is ih =>
      have hs := ih (sampled_step (k := k) h i)
      rwa [List.append_assoc] at hs

theorem timing_step (s : Loop) (i : Input) :
    (step k s i).pinger.rts.timing = s.pinger.rts.timing := by
  change (figures _).timing = _
  rw [figures_step]
  cases replyOf k s i with
  | none => rfl
  | some p =>
      obtain ⟨n, d, -, hf⟩ := figures_gatherStatistics s.pinger.rts p
      dsimp only
      rw [hf]
      exact addSample_timing _ _

theorem timing_run (s : Loop) (is : List Input) :
    (run k s is).pinger.rts.timing = s.pinger.rts.timing := by
  induction is generalizing s with
  | nil => rfl
  | cons i is ih => exact (ih (step k s i)).trans (timing_step s i)

/-- The undamaged replies of a run are those that it has counted. -/
theorem count_run (s : Loop) (is : List Input) :
    (run k s is).pinger.rts.nreceived + (run k s is).pinger.rts.nrepeats =
      s.pinger.rts.nreceived + s.pinger.rts.nrepeats + (undamaged k s is).length := by
  induction is generalizing s with
  | nil => simp [run, undamaged]
  | cons i is ih =>
      have hstep : (figures (step k s i).pinger.rts).nreceived +
          (figures (step k s i).pinger.rts).nrepeats =
            s.pinger.rts.nreceived + s.pinger.rts.nrepeats +
              ((replyOf k s i).filter fun p => ! p.csfailed).toList.length := by
        rw [figures_step]
        cases replyOf k s i with
        | none => simp [figures]
        | some p =>
            obtain ⟨n, d, ⟨-, -, hcount⟩, hf⟩ := figures_gatherStatistics s.pinger.rts p
            dsimp only
            rw [hf, hcount]
            cases hck : p.csfailed <;> simp [Option.filter, hck]
      have hrest := ih (step k s i)
      change (run k (step k s i) is).pinger.rts.nreceived +
        (run k (step k s i) is).pinger.rts.nrepeats = _
      rw [hrest, undamaged, List.length_append]
      change (figures (step k s i).pinger.rts).nreceived +
        (figures (step k s i).pinger.rts).nrepeats + _ = _
      rw [hstep]
      push_cast
      ring

theorem counters_step (s : Loop) (i : Input) :
    s.pinger.rts.nreceived ≤ (step k s i).pinger.rts.nreceived ∧
      s.pinger.rts.nrepeats ≤ (step k s i).pinger.rts.nrepeats := by
  change _ ≤ (figures _).nreceived ∧ _ ≤ (figures _).nrepeats
  rw [figures_step]
  cases replyOf k s i with
  | none => exact ⟨le_rfl, le_rfl⟩
  | some p =>
      obtain ⟨n, d, ⟨hn, hd, -⟩, hf⟩ := figures_gatherStatistics s.pinger.rts p
      dsimp only
      rw [hf]
      exact ⟨hn, hd⟩

theorem counters_run (s : Loop) (is : List Input) :
    s.pinger.rts.nreceived ≤ (run k s is).pinger.rts.nreceived ∧
      s.pinger.rts.nrepeats ≤ (run k s is).pinger.rts.nrepeats := by
  induction is generalizing s with
  | nil => exact ⟨le_rfl, le_rfl⟩
  | cons i is ih =>
      have hstep := counters_step (k := k) s i
      have hrest := ih (step k s i)
      exact ⟨hstep.1.trans hrest.1, hstep.2.trans hrest.2⟩

/-- With timing the samples are those of the replies that can be timed. -/
theorem length_samples {s : Loop} (htiming : s.pinger.rts.timing = true) (is : List Input) :
    (samples k s is).length = ((undamaged k s is).filter fun p => Timeable p).length := by
  induction is generalizing s with
  | nil => rfl
  | cons i is ih =>
      have hrest := ih ((timing_step (k := k) s i).trans htiming)
      have hone : ((replyOf k s i).bind (sampleOf s.pinger.rts)).toList.length =
          (((replyOf k s i).filter fun p => ! p.csfailed).toList.filter
            fun p => Timeable p).length := by
        cases replyOf k s i with
        | none => rfl
        | some p =>
            by_cases hp : Timeable p
            · cases hck : p.csfailed <;> simp [sampleOf, htiming, hp, hck, Option.filter]
            · cases hck : p.csfailed <;> simp [sampleOf, htiming, hp, hck, Option.filter]
      rw [samples, undamaged, List.filter_append, List.length_append, List.length_append, hone,
        hrest]

end Runs

/-! ## The average -/

/-- What the printed figures should satisfy when they are printed: all counted replies
have a sample, and the average is between the extremes, exactly and as it is printed. -/
def AverageRight (xs : List ℤ) (r : Rts) : Prop :=
  Timed r → (xs.length : ℤ) = r.nreceived + r.nrepeats ∧
    r.tmin * (r.nreceived + r.nrepeats) ≤ r.tsum ∧ r.tsum ≤ r.tmax * (r.nreceived + r.nrepeats) ∧
    r.tmin ≤ average r ∧ average r ≤ r.tmax

theorem Sampled.sum_between {xs : List ℤ} {f : Figures} (h : Sampled xs f) :
    f.tmin * xs.length ≤ f.tsum ∧ f.tsum ≤ f.tmax * xs.length := by
  have hlow := List.card_nsmul_le_sum xs f.tmin h.low
  have hhigh := List.sum_le_card_nsmul xs f.tmax h.high
  rw [nsmul_eq_mul, mul_comm] at hlow hhigh
  rw [h.sum]
  exact ⟨hlow, hhigh⟩

theorem tdiv_between {a b sum n : ℤ} (hn : 0 < n) (ha : 0 ≤ a) (hlow : a * n ≤ sum)
    (hhigh : sum ≤ b * n) : a ≤ sum.tdiv n ∧ sum.tdiv n ≤ b := by
  have hsum : 0 ≤ sum := (mul_nonneg ha hn.le).trans hlow
  rw [Int.tdiv_eq_ediv_of_nonneg hsum]
  exact ⟨(Int.le_ediv_iff_mul_le hn).mpr hlow,
    (Int.ediv_le_ediv hn hhigh).trans_eq (Int.mul_ediv_cancel b hn.ne')⟩

section Runs
variable (k : Setup)

/-- The average of a run is between the extremes exactly when, should it be printed, each
undamaged reply of the run was long enough to be timed. -/
theorem average_right_iff (r : Rts) (is : List Input) :
    AverageRight (samples k (Loop.start (fresh r)) is)
        (run k (Loop.start (fresh r)) is).pinger.rts ↔
      (Timed (run k (Loop.start (fresh r)) is).pinger.rts →
        ∀ p ∈ undamaged k (Loop.start (fresh r)) is, Timeable p) := by
  have hsampled := sampled_run (k := k) (s := Loop.start (fresh r)) (sampled_fresh r) is
  have hcount := count_run (k := k) (Loop.start (fresh r)) is
  have htiming := timing_run (k := k) (Loop.start (fresh r)) is
  rw [List.nil_append] at hsampled
  have hcounters := counters_run (k := k) (Loop.start (fresh r)) is
  have hsum := hsampled.sum_between
  have hlength : (run k (Loop.start (fresh r)) is).pinger.rts.timing = true →
      (samples k (Loop.start (fresh r)) is).length =
        ((undamaged k (Loop.start (fresh r)) is).filter fun p => Timeable p).length := fun ht =>
    length_samples (htiming.symm.trans ht) is
  have hzero : (Loop.start (fresh r)).pinger.rts.nreceived = 0 ∧
      (Loop.start (fresh r)).pinger.rts.nrepeats = 0 := ⟨rfl, rfl⟩
  rw [hzero.1, hzero.2] at hcounters hcount
  generalize samples k (Loop.start (fresh r)) is = xs at *
  generalize undamaged k (Loop.start (fresh r)) is = replies at *
  generalize (run k (Loop.start (fresh r)) is).pinger.rts = t at *
  constructor
  · intro hright ht
    have hlen := (hright ht).1
    rw [hlength ht.2] at hlen
    have hall : (replies.filter fun p => Timeable p).length = replies.length := by omega
    intro p hp
    simpa using List.length_filter_eq_length_iff.mp hall p hp
  · intro hall ht
    have hfilter : (replies.filter fun p => Timeable p).length = replies.length :=
      List.length_filter_eq_length_iff.mpr fun p hp => by simpa using hall ht p hp
    have hlen : (xs.length : ℤ) = t.nreceived + t.nrepeats := by
      rw [hlength ht.2, hfilter]
      omega
    have hpos : 0 < t.nreceived + t.nrepeats := by
      have hne := ht.1
      omega
    rw [hlen] at hsum
    exact ⟨hlen, hsum.1, hsum.2, tdiv_between hpos hsampled.bottom hsum.1 hsum.2⟩

end Runs

/-- A reply of eight bytes to a ping with timing. -/
def shortReply : List Input :=
  [.check, .clock ⟨1, 0⟩, .send ⟨[], .sent, .failed false⟩, .wait none,
    .datagram { buf := [129, 0, 0, 0, 0, 0, 0, 1], cc := 8, src := List.replicate 15 0 ++ [1] }]

def shortSetup : Setup := { env := plainEnv, fam := .inet6, sock := .dgram }

/-- The shortest time is printed as the largest `long`, although the longest is zero. -/
theorem short_reply_untimed :
    let s := run shortSetup (Loop.start (fresh { timing := true })) shortReply
    Timed s.pinger.rts ∧ s.pinger.rts.tmin = longMax ∧ average s.pinger.rts = 0 ∧
      s.pinger.rts.tmax = 0 ∧
      ¬ AverageRight (samples shortSetup (Loop.start (fresh { timing := true })) shortReply)
        s.pinger.rts := by
  intro s
  have ht : Timed s.pinger.rts := by decide +kernel
  have hmin : s.pinger.rts.tmin = longMax := by decide +kernel
  have havg : average s.pinger.rts = 0 := by decide +kernel
  refine ⟨ht, hmin, havg, by decide +kernel, ?_⟩
  intro hright
  have hle := (hright ht).2.2.2.1
  rw [hmin, havg] at hle
  exact absurd hle (by decide)

/-! ## The moving average -/

/-- The moving average, which is kept in eighths, is between the extremes. -/
def EwmaBetween (r : Rts) : Prop :=
  8 * r.tmin ≤ r.rtt ∧ r.rtt ≤ 8 * r.tmax ∧ r.tmin ≤ r.rtt / 8 ∧ r.rtt / 8 ≤ r.tmax

/-- `r'` holds the moving average of `r` after the sample `t`, computed without wrapping. -/
def ExactUpdate (r r' : Rts) (t : ℤ) : Prop :=
  0 ≤ r.rtt + (t - r.rtt / 8) ∧
    r'.rtt = if r.rtt = 0 then 8 * t else r.rtt + (t - r.rtt / 8)

section Ewma
variable {xs : List ℤ} {r r' : Rts} {t : ℤ}

theorem Sampled.ewmaBetween (h : Sampled xs (figures r)) (hxs : xs ≠ []) : EwmaBetween r := by
  have he : 8 * r.tmin ≤ r.rtt ∧ r.rtt ≤ 8 * r.tmax := h.ewma hxs
  exact ⟨he.1, he.2, by omega, by omega⟩

theorem Sampled.exactUpdate (h : Sampled xs (figures r)) (h₀ : 0 ≤ t) (h₁ : t < tripBound)
    (hr' : r'.rtt = (addSample (figures r) (some t)).rtt) : ExactUpdate r r' t := by
  obtain ⟨hrtt, hnonneg, -⟩ := addSample_rtt h h₀ h₁
  have hnonneg' : 0 ≤ r.rtt := hnonneg
  refine ⟨by omega, ?_⟩
  rw [hr', hrtt]
  change (if r.rtt = 0 then _ else r.rtt - r.rtt / 8 + t) = _
  split_ifs
  · rfl
  · omega

theorem sampled_addTrips (ts : List ℤ) (h : Sampled xs (figures r))
    (hts : ∀ t ∈ ts, 0 ≤ t ∧ t < tripBound) :
    Sampled (xs ++ ts) (figures (ts.foldl addTrip r)) := by
  induction ts generalizing xs r with
  | nil => simpa using h
  | cons t ts ih =>
      have hone : Sampled (xs ++ [t]) (figures (addTrip r t)) :=
        h.more (some t) fun u hu => by
          obtain rfl := Option.some.inj hu
          exact hts t (by simp)
      have hall := ih hone fun u hu => hts u (by simp [hu])
      rwa [List.append_assoc] at hall

end Ewma

/-- The moving average is between the extremes after every nonempty sequence of samples,
and no update wraps; so it is in every run of the main loop, whatever else happens between
the samples. -/
theorem ewma_between_extremes (k : Setup) (r : Rts) :
    (∀ ts : List ℤ, (∀ t ∈ ts, 0 ≤ t ∧ t < 2147483648) →
      (ts ≠ [] → EwmaBetween (ts.foldl addTrip (fresh r))) ∧
      ∀ t, 0 ≤ t ∧ t < 2147483648 →
        ExactUpdate (ts.foldl addTrip (fresh r)) (addTrip (ts.foldl addTrip (fresh r)) t) t) ∧
    ∀ is : List Input,
      (samples k (Loop.start (fresh r)) is ≠ [] →
        EwmaBetween (run k (Loop.start (fresh r)) is).pinger.rts) ∧
      ∀ i p t, replyOf k (run k (Loop.start (fresh r)) is) i = some p →
        sampleOf (run k (Loop.start (fresh r)) is).pinger.rts p = some t →
          ExactUpdate (run k (Loop.start (fresh r)) is).pinger.rts
            (step k (run k (Loop.start (fresh r)) is) i).pinger.rts t := by
  have hbound : ∀ t : ℤ, 0 ≤ t ∧ t < 2147483648 → 0 ≤ t ∧ t < tripBound := by
    intro t ht
    unfold tripBound
    omega
  refine ⟨?_, ?_⟩
  · intro ts hts
    have hs := sampled_addTrips ts (sampled_fresh r) fun t ht => hbound t (hts t ht)
    refine ⟨fun hne => hs.ewmaBetween hne, ?_⟩
    intro t ht
    have hb := hbound t ht
    exact hs.exactUpdate hb.1 hb.2 rfl
  · intro is
    have hs := sampled_run (k := k) (s := Loop.start (fresh r)) (sampled_fresh r) is
    refine ⟨fun hne => hs.ewmaBetween hne, ?_⟩
    intro i p t hp ht
    have hb := sampleOf_range ht
    refine hs.exactUpdate hb.1 hb.2 ?_
    obtain ⟨n, d, -, hf⟩ := figures_gatherStatistics (run k (Loop.start (fresh r)) is).pinger.rts p
    have hstep := figures_step (k := k) (run k (Loop.start (fresh r)) is) i
    rw [hp] at hstep
    dsimp only at hstep
    rw [hf, ht] at hstep
    exact congrArg Figures.rtt hstep

/-- Zeros start the average anew. -/
theorem ewma_between_zeros :
    EwmaBetween ([0, 0, 800, 3].foldl addTrip (fresh {})) :=
  ((ewma_between_extremes shortSetup {}).1 [0, 0, 800, 3] (by decide)).1 (by decide)

end Iputils.TripStatistics
