import Iputils.ArpingRuns

/-!
# The counters of arping

`recv_pack` counts an accepted frame in three places. With a timeout it returns
between the first and the others when the frame is the last one that was asked for,
so that this frame is missing in the numbers of broadcasts and requests that `finish`
prints. The counters of a run are compared with the frames that were accepted in it.
-/
set_option autoImplicit false

namespace Iputils.ArpingCounts
open ByteBuffer Arping ArpingRuns

/-- A frame with its sender. -/
structure Frame where
  data : List UInt8
  sender : SockaddrLl
deriving Repr, DecidableEq

/-- The frame was not sent to this host alone. -/
def Frame.broadcast (f : Frame) : Bool := (f.sender.pkttype.toNat : ℤ) ≠ packetHost

def Frame.request (f : Frame) : Bool := arOp (f.data.take packetSize) = arpopRequest

def Action.frame? : Action → Option Frame
  | .send _ => none
  | .frame data sender _ => some ⟨data, sender⟩

def framesOf (actions : List Action) : List Frame := actions.filterMap Action.frame?

/-- The frames that are accepted in a run of `event_loop`, in their order. -/
def acceptedFrames (ctl : RunState) (packet : List UInt8) (first : Sent) (polls : List Poll) :
    List Frame :=
  framesOf (runActions polls { ctl := sendPack ctl first, packet := packet })

/-- No frame has been counted yet. -/
structure Fresh (ctl : RunState) : Prop where
  received : ctl.received = 0
  brdRecv : ctl.brdRecv = 0
  reqRecv : ctl.reqRecv = 0

/-- The counters are the numbers that `finish` names them. -/
structure CountsRight (ctl : RunState) (frames : List Frame) : Prop where
  received : ctl.received = frames.length
  brdRecv : ctl.brdRecv = frames.countP Frame.broadcast
  reqRecv : ctl.reqRecv = frames.countP Frame.request

/-- The early return is taken for the frame that is received next. -/
def cutShort (ctl : RunState) : Bool := ctl.timeout ≠ 0 ∧ ctl.received + 1 = ctl.count

section Steps
variable {ctl : RunState}

/-- The fields that decide about the early return do not change. -/
def SameLimits (ctl ctl' : RunState) : Prop :=
  ctl'.timeout = ctl.timeout ∧ ctl'.count = ctl.count

theorem sendPack_counters (ctl : RunState) (res : Sent) :
    (sendPack ctl res).received = ctl.received ∧ (sendPack ctl res).brdRecv = ctl.brdRecv ∧
      (sendPack ctl res).reqRecv = ctl.reqRecv ∧ SameLimits ctl (sendPack ctl res) := by
  unfold sendPack
  by_cases herr : res.err = (sendPackFrame ctl).length
  · rw [if_pos herr]
    exact ⟨rfl, rfl, rfl, rfl, rfl⟩
  · rw [if_neg herr]
    exact ⟨rfl, rfl, rfl, rfl, rfl⟩

/-- What one accepted frame adds to the counters. -/
theorem apply_frame {data : List UInt8} {sender : SockaddrLl} {ts : Timespec}
    (h : accepts ctl data sender ts = true) :
    let f : Frame := ⟨data, sender⟩
    let ctl' := Action.apply ctl (.frame data sender ts)
    ctl'.received = ctl.received + 1 ∧
      ctl'.brdRecv = ctl.brdRecv + (if cutShort ctl = false ∧ f.broadcast = true then 1 else 0) ∧
      ctl'.reqRecv = ctl.reqRecv + (if cutShort ctl = false ∧ f.request = true then 1 else 0) ∧
      SameLimits ctl ctl' := by
  rw [accepts_eq_passes] at h
  simp only [Action.apply, recvPack, h, if_true, countFrame, SameLimits, Frame.broadcast,
    Frame.request, cutShort]
  split_ifs <;> simp_all

end Steps

/-- The frame for which the early return is taken, among those still to come. -/
def lastAsked (ctl : RunState) (frames : List Frame) : Option Frame :=
  if ctl.timeout ≠ 0 ∧ ctl.received < ctl.count then frames[(ctl.count - ctl.received - 1).toNat]?
  else none

section Runs
variable {ctl₀ ctl : RunState}

theorem lastAsked_cons {ctl' : RunState} (hr : ctl'.received = ctl.received + 1)
    (hl : SameLimits ctl ctl') (f : Frame) (fs : List Frame) :
    lastAsked ctl (f :: fs) = if cutShort ctl then some f else lastAsked ctl' fs := by
  unfold lastAsked cutShort
  rw [hl.1, hl.2, hr]
  by_cases ht : ctl.timeout = 0
  · simp [ht]
  rcases lt_trichotomy (ctl.received + 1) ctl.count with hlt | heq | hgt
  · have hindex : (ctl.count - ctl.received - 1).toNat =
        (ctl.count - (ctl.received + 1) - 1).toNat + 1 := by omega
    have hcut : ¬ decide (ctl.timeout ≠ 0 ∧ ctl.received + 1 = ctl.count) = true := by
      simp only [decide_eq_true_eq]
      omega
    rw [if_neg hcut, if_pos ⟨ht, by omega⟩, if_pos ⟨ht, hlt⟩, hindex, List.getElem?_cons_succ]
  · have hindex : (ctl.count - ctl.received - 1).toNat = 0 := by omega
    rw [if_pos ⟨ht, by omega⟩, if_pos (decide_eq_true ⟨ht, heq⟩), hindex, List.getElem?_cons_zero]
  · have hcut : ¬ decide (ctl.timeout ≠ 0 ∧ ctl.received + 1 = ctl.count) = true := by
      simp only [decide_eq_true_eq]
      omega
    rw [if_neg hcut, if_neg (fun h => by omega), if_neg (fun h => by omega)]

/-- Every frame of these actions is accepted. -/
def AllAccepted (ctl : RunState) (actions : List Action) : Prop :=
  ∀ data sender ts, .frame data sender ts ∈ actions → accepts ctl data sender ts = true

theorem AllAccepted.tail {a : Action} {actions : List Action}
    (h : AllAccepted ctl (a :: actions)) : AllAccepted ctl actions :=
  fun data sender ts hmem => h data sender ts (List.mem_cons_of_mem a hmem)

theorem sameChecks_apply (a : Action) : SameChecks ctl (Action.apply ctl a) := by
  cases a with
  | send res => exact sameChecks_sendPack res
  | frame data sender ts => exact sameChecks_recvPack _ _ _ _

theorem foldl_received {actions : List Action} (hc : SameChecks ctl₀ ctl)
    (ha : AllAccepted ctl₀ actions) :
    (actions.foldl Action.apply ctl).received = ctl.received + (framesOf actions).length := by
  induction actions generalizing ctl with
  | nil => simp [framesOf]
  | cons a actions ih =>
      rw [List.foldl_cons]
      cases a with
      | send res =>
          rw [ih (hc.trans (sameChecks_apply _)) ha.tail, Action.apply,
            (sendPack_counters ctl res).1]
          rfl
      | frame data sender ts =>
          have hacc := (accepts_congr hc data sender ts).trans (ha data sender ts (by simp))
          rw [ih (hc.trans (sameChecks_apply _)) ha.tail, (apply_frame hacc).1]
          simp only [framesOf, List.filterMap_cons, Action.frame?, List.length_cons]
          push_cast
          omega

/-- Once the counter has reached its limit no later frame is the last one. -/
theorem lastAsked_cut {ctl ctl' : RunState} {frames : List Frame} (hcut : cutShort ctl = true)
    (hr : ctl'.received = ctl.received + 1) (hl : SameLimits ctl ctl') :
    lastAsked ctl' frames = none := by
  simp only [cutShort, decide_eq_true_eq] at hcut
  unfold lastAsked
  rw [hr, hl.2]
  exact if_neg fun h => by omega

/-- A counter that adds up the frames with a property misses the last one asked for. -/
theorem foldl_counter {c : RunState → ℤ} {p : Frame → Bool}
    (hsend : ∀ ctl res, c (sendPack ctl res) = c ctl)
    (hframe : ∀ ctl data sender ts, accepts ctl data sender ts = true →
      c (Action.apply ctl (.frame data sender ts)) =
        c ctl + if cutShort ctl = false ∧ p ⟨data, sender⟩ = true then 1 else 0)
    {actions : List Action} (hc : SameChecks ctl₀ ctl) (ha : AllAccepted ctl₀ actions) :
    c (actions.foldl Action.apply ctl) = c ctl + (framesOf actions).countP p -
      if (lastAsked ctl (framesOf actions)).any p then 1 else 0 := by
  induction actions generalizing ctl with
  | nil => simp [framesOf, lastAsked]
  | cons a actions ih =>
      rw [List.foldl_cons]
      cases a with
      | send res =>
          obtain ⟨hr, -, -, hl⟩ := sendPack_counters ctl res
          have hlast : lastAsked (sendPack ctl res) (framesOf actions) =
              lastAsked ctl (framesOf actions) := by
            unfold lastAsked
            rw [hr, hl.1, hl.2]
          rw [ih (hc.trans (sameChecks_apply _)) ha.tail, Action.apply, hsend, hlast]
          rfl
      | frame data sender ts =>
          have hacc := (accepts_congr hc data sender ts).trans (ha data sender ts (by simp))
          obtain ⟨hr, -, -, hl⟩ := apply_frame hacc
          have hframes : framesOf (.frame data sender ts :: actions) =
              ⟨data, sender⟩ :: framesOf actions := rfl
          rw [ih (hc.trans (sameChecks_apply _)) ha.tail, hframe _ _ _ _ hacc, hframes,
            lastAsked_cons hr hl, List.countP_cons]
          cases hcut : cutShort ctl with
          | false =>
              cases hp : p ⟨data, sender⟩ with
              | false => simp
              | true =>
                  simp only [Bool.false_eq_true, and_self, if_true, if_false]
                  push_cast
                  omega
          | true =>
              rw [lastAsked_cut hcut hr hl]
              cases hp : p ⟨data, sender⟩ with
              | false => simp [hp]
              | true =>
                  simp only [Option.any_some, hp, if_true, Bool.true_eq_false, false_and, if_false,
                    Option.any_none, Bool.false_eq_true]
                  push_cast
                  omega

/-- The actions of a round are at most a send and an accepted frame. -/
theorem allAccepted_roundActions (p : Poll) {l : Loop} (hc : SameChecks ctl₀ l.ctl) :
    AllAccepted ctl₀ (roundActions l p) := by
  intro data sender ts hmem
  cases p with
  | failed again => cases hmem
  | ready signal timer timeout socket =>
      have hchecks := hc.trans (sameChecks_beforeSocket signal timer timeout)
      obtain hmem | hmem := List.mem_append.mp hmem
      · unfold timerActions at hmem
        split at hmem
        · split_ifs at hmem
          · cases hmem
          · simp at hmem
        · cases hmem
        · cases hmem
      · rcases socket with _ | ⟨netdown⟩ | ⟨data', sender', ts'⟩
        · cases hmem
        · cases hmem
        · unfold socketActions at hmem
          dsimp only at hmem
          split_ifs at hmem with hacc
          · obtain ⟨rfl, rfl, rfl⟩ := Action.frame.inj (List.mem_singleton.mp hmem)
            rw [← hacc]
            exact (accepts_congr hchecks data sender ts).symm
          · cases hmem

theorem allAccepted_runActions (polls : List Poll) {l : Loop} (hc : SameChecks ctl₀ l.ctl) :
    AllAccepted ctl₀ (runActions polls l) := by
  induction polls generalizing l with
  | nil => exact nofun
  | cons p polls ih =>
      have hround := allAccepted_roundActions p hc
      have hrest := ih (hc.trans (sameChecks_round p))
      intro data sender ts hmem
      unfold runActions at hmem
      split_ifs at hmem
      · cases hmem
      · rw [List.append_nil] at hmem
        exact hround data sender ts hmem
      · obtain hmem | hmem := List.mem_append.mp hmem
        · exact hround data sender ts hmem
        · exact hrest data sender ts hmem

end Runs

/-- The counters of a run: the first one is right, the others lack the frame at which
the early return was taken. -/
theorem eventLoop_counters {ctl : RunState} (h : Fresh ctl) (packet : List UInt8) (first : Sent)
    (polls : List Poll) :
    let frames := acceptedFrames ctl packet first polls
    let res := (eventLoop ctl packet first polls).ctl
    res.received = frames.length ∧
      (res.brdRecv = frames.countP Frame.broadcast -
        if (lastAsked ctl frames).any Frame.broadcast then 1 else 0) ∧
      res.reqRecv = frames.countP Frame.request -
        if (lastAsked ctl frames).any Frame.request then 1 else 0 := by
  intro frames res
  obtain ⟨hr, hb, hq, hl⟩ := sendPack_counters ctl first
  have hchecks : SameChecks ctl (sendPack ctl first) := sameChecks_sendPack first
  have hall := allAccepted_runActions polls
    (l := { ctl := sendPack ctl first, packet := packet }) hchecks
  have hres : res = (runActions polls { ctl := sendPack ctl first, packet := packet }).foldl
      Action.apply (sendPack ctl first) := loopRun_ctl polls
  have hlast : lastAsked (sendPack ctl first) frames = lastAsked ctl frames := by
    unfold lastAsked
    rw [hr, hl.1, hl.2]
  rw [hres]
  refine ⟨?_, ?_, ?_⟩
  · rw [foldl_received hchecks hall, hr, h.received, zero_add]
    rfl
  · rw [foldl_counter (c := RunState.brdRecv) (p := Frame.broadcast)
      (fun ctl res => (sendPack_counters ctl res).2.1)
      (fun _ _ _ _ hacc => (apply_frame hacc).2.1) hchecks hall, hb, h.brdRecv, zero_add, ← hlast]
    rfl
  · rw [foldl_counter (c := RunState.reqRecv) (p := Frame.request)
      (fun ctl res => (sendPack_counters ctl res).2.2.1)
      (fun _ _ _ _ hacc => (apply_frame hacc).2.2.1) hchecks hall, hq, h.reqRecv, zero_add, ← hlast]
    rfl

/-- The frame of the early return is the only one that can be missing. -/
theorem countsRight_iff {ctl : RunState} (h : Fresh ctl) (packet : List UInt8) (first : Sent)
    (polls : List Poll) :
    CountsRight (eventLoop ctl packet first polls).ctl (acceptedFrames ctl packet first polls) ↔
      (lastAsked ctl (acceptedFrames ctl packet first polls)).any Frame.broadcast = false ∧
        (lastAsked ctl (acceptedFrames ctl packet first polls)).any Frame.request = false := by
  obtain ⟨hr, hb, hq⟩ := eventLoop_counters h packet first polls
  generalize acceptedFrames ctl packet first polls = frames at hr hb hq ⊢
  constructor
  · intro hright
    have hb' := hright.brdRecv
    have hq' := hright.reqRecv
    rw [hb] at hb'
    rw [hq] at hq'
    constructor
    · by_contra hany
      rw [if_pos (by simpa using hany)] at hb'
      omega
    · by_contra hany
      rw [if_pos (by simpa using hany)] at hq'
      omega
  · rintro ⟨hb', hq'⟩
    refine ⟨hr, ?_, ?_⟩
    · rw [hb, hb']
      simp
    · rw [hq, hq']
      simp

/-- The counters that `finish` prints are right exactly when the early return is not
taken for a frame that one of the later counters is about. -/
theorem counts_right_iff {ctl : RunState} (h : Fresh ctl) (packet : List UInt8) (first : Sent)
    (polls : List Poll) :
    CountsRight (eventLoop ctl packet first polls).ctl (acceptedFrames ctl packet first polls) ↔
      (ctl.timeout ≠ 0 → 0 < ctl.count →
        ∀ f, (acceptedFrames ctl packet first polls)[(ctl.count - 1).toNat]? = some f →
          f.broadcast = false ∧ f.request = false) := by
  rw [countsRight_iff h]
  generalize acceptedFrames ctl packet first polls = frames
  have hlast : lastAsked ctl frames =
      if ctl.timeout ≠ 0 ∧ 0 < ctl.count then frames[(ctl.count - 1).toNat]? else none := by
    unfold lastAsked
    rw [h.received, sub_zero]
  rw [hlast]
  by_cases hlim : ctl.timeout ≠ 0 ∧ 0 < ctl.count
  · rw [if_pos hlim]
    cases hf : frames[(ctl.count - 1).toNat]? with
    | none => simp
    | some f => simp [hlim.1, hlim.2]
  · rw [if_neg hlim]
    simp only [Option.any_none, and_self, true_iff]
    intro ht hpos
    exact absurd ⟨ht, hpos⟩ hlim

/-- `arping -c 1 -w 1` on an Ethernet device. -/
def oneReply : RunState where
  me := ⟨1, 0, 6, [2, 0, 0, 0, 0, 1]⟩
  he := ⟨1, 0, 6, [255, 255, 255, 255, 255, 255]⟩
  gsrc := ⟨[192, 0, 2, 1], rfl⟩
  gdst := ⟨[192, 0, 2, 2], rfl⟩
  count := 1
  timeout := 1

/-- The answer to the first probe, as the link layer delivers it. -/
def answered (pkttype : UInt8) : List Poll :=
  [.ready none none false
    (some (.frame (answerTo oneReply [2, 0, 0, 0, 0, 7]) ⟨1, pkttype, 6, []⟩ ⟨1, 0⟩))]

theorem counts_right_unicast :
    CountsRight (eventLoop oneReply [] ⟨⟨1, 0⟩, 28⟩ (answered 0)).ctl
      (acceptedFrames oneReply [] ⟨⟨1, 0⟩, 28⟩ (answered 0)) := by
  have hfresh : Fresh oneReply := ⟨rfl, rfl, rfl⟩
  refine (counts_right_iff hfresh [] ⟨⟨1, 0⟩, 28⟩ (answered 0)).mpr fun _ _ f hf => ?_
  have hone : acceptedFrames oneReply [] ⟨⟨1, 0⟩, 28⟩ (answered 0) =
      [⟨answerTo oneReply [2, 0, 0, 0, 0, 7], ⟨1, 0, 6, []⟩⟩] := by decide +kernel
  rw [hone] at hf
  obtain rfl := Option.some.inj hf
  exact ⟨by decide +kernel, by decide +kernel⟩

/-- A reply by broadcast is received and not counted as one. -/
theorem last_broadcast_missed :
    Fresh oneReply ∧
    finishText (eventLoop oneReply [] ⟨⟨1, 0⟩, 28⟩ (answered 1)).ctl =
      "Sent 1 probes (1 broadcast(s))\nReceived 1 response(s)\n".toList ∧
    (acceptedFrames oneReply [] ⟨⟨1, 0⟩, 28⟩ (answered 1)).countP Frame.broadcast = 1 ∧
    ¬ CountsRight (eventLoop oneReply [] ⟨⟨1, 0⟩, 28⟩ (answered 1)).ctl
      (acceptedFrames oneReply [] ⟨⟨1, 0⟩, 28⟩ (answered 1)) := by
  have hbrd : (eventLoop oneReply [] ⟨⟨1, 0⟩, 28⟩ (answered 1)).ctl.brdRecv = 0 := by
    decide +kernel
  have hcount :
      (acceptedFrames oneReply [] ⟨⟨1, 0⟩, 28⟩ (answered 1)).countP Frame.broadcast = 1 := by
    decide +kernel
  refine ⟨⟨rfl, rfl, rfl⟩, by decide +kernel, hcount, fun h => ?_⟩
  have hright := h.brdRecv
  rw [hbrd, hcount] at hright
  cases hright

end Iputils.ArpingCounts
