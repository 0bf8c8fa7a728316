import Iputils.PingState
import Mathlib.Logic.Relation
import Mathlib.Data.Int.Interval

/-!
# The acknowledgement window

`acked` is a 16-bit shadow of the highest acknowledged probe number. The three
inline helpers of `ping.h` compare it with the low 16 bits of `ntransmitted`,
in some places after a conversion to `uint16_t` and in others as plain `int`.

Runs interleave transmissions with acknowledgements. The list of all
acknowledgements is kept beside the state as a ghost; it is what the window is
about, and none of the functions reads it.
-/
set_option autoImplicit false

namespace Iputils.AckWindow
open MachineInt PingState

def inFlight (r : Rts) : ℤ :=
  let diff := u16 (u16 r.ntransmitted - r.acked)
  i32 (if diff ≤ 0x7FFF then diff else r.ntransmitted - r.nreceived - r.nerrors)

/-- The second alternative of the inner test is an `int` difference: it is not
truncated to 16 bits. -/
def acknowledge (r : Rts) (seq : ℤ) : Rts :=
  let diff := u16 (u16 r.ntransmitted - seq)
  if diff ≤ 0x7FFF then
    { r with
      pipesize := if diff + 1 > r.pipesize then diff + 1 else r.pipesize
      acked :=
        if i16 (seq - r.acked) > 0 ∨ u16 r.ntransmitted - r.acked > 0x7FFF then seq
        else r.acked }
  else r

/-- Invalidates `acked` when the 16-bit sequence overflows. -/
def advanceNtransmitted (r : Rts) : Rts :=
  let n := r.ntransmitted + 1
  { r with
    ntransmitted := n
    acked := if u16 n - r.acked > 0x7FFF then u16 (u16 n + 1) else r.acked }

section Fields
variable (r : Rts) (seq : ℤ)

@[simp] theorem acknowledge_ntransmitted : (acknowledge r seq).ntransmitted = r.ntransmitted := by
  simp only [acknowledge]
  split_ifs <;> rfl

@[simp] theorem acknowledge_nreceived : (acknowledge r seq).nreceived = r.nreceived := by
  simp only [acknowledge]
  split_ifs <;> rfl

@[simp] theorem acknowledge_nerrors : (acknowledge r seq).nerrors = r.nerrors := by
  simp only [acknowledge]
  split_ifs <;> rfl

theorem acknowledge_acked :
    (acknowledge r seq).acked =
      if u16 (u16 r.ntransmitted - seq) ≤ 0x7FFF ∧
          (i16 (seq - r.acked) > 0 ∨ u16 r.ntransmitted - r.acked > 0x7FFF)
      then seq else r.acked := by
  simp only [acknowledge]
  split_ifs <;> simp_all

theorem acknowledge_pipesize :
    (acknowledge r seq).pipesize =
      if u16 (u16 r.ntransmitted - seq) ≤ 0x7FFF
      then max (u16 (u16 r.ntransmitted - seq) + 1) r.pipesize else r.pipesize := by
  simp only [acknowledge]
  split_ifs <;> simp <;> omega

@[simp] theorem advanceNtransmitted_ntransmitted :
    (advanceNtransmitted r).ntransmitted = r.ntransmitted + 1 := rfl

@[simp] theorem advanceNtransmitted_nreceived :
    (advanceNtransmitted r).nreceived = r.nreceived := rfl

@[simp] theorem advanceNtransmitted_nerrors : (advanceNtransmitted r).nerrors = r.nerrors := rfl

@[simp] theorem advanceNtransmitted_pipesize :
    (advanceNtransmitted r).pipesize = r.pipesize := rfl

theorem advanceNtransmitted_acked :
    (advanceNtransmitted r).acked =
      if u16 (r.ntransmitted + 1) - r.acked > 0x7FFF
      then u16 (u16 (r.ntransmitted + 1) + 1) else r.acked := rfl

end Fields

/-- One acknowledgement: the probe it names and `ntransmitted` when it arrived. -/
structure Ack where
  probe : ℤ
  sent : ℤ
deriving Repr, DecidableEq

def Ack.age (a : Ack) : ℤ := a.sent - a.probe

/-- The highest acknowledged probe number, 0 if there is none. -/
def highest : List Ack → ℤ
  | [] => 0
  | a :: as => max a.probe (highest as)

/-- The largest `age + 1` among the acknowledgements young enough to be
recognised, -1 if there is none. -/
def widest : List Ack → ℤ
  | [] => -1
  | a :: as => if a.age ≤ 0x7FFF then max (a.age + 1) (widest as) else widest as

def answered (as : List Ack) : Finset ℤ := (as.map Ack.probe).toFinset

theorem highest_nonneg (as : List Ack) : 0 ≤ highest as := by
  induction as with
  | nil => exact le_rfl
  | cons a as ih => exact le_max_of_le_right ih

theorem le_highest {as : List Ack} {a : Ack} (h : a ∈ as) : a.probe ≤ highest as := by
  induction as with
  | nil => simp at h
  | cons b as ih =>
      rcases List.mem_cons.mp h with rfl | h
      · exact le_max_left _ _
      · exact le_max_of_le_right (ih h)

theorem highest_mem (as : List Ack) : highest as = 0 ∨ highest as ∈ answered as := by
  induction as with
  | nil => exact .inl rfl
  | cons a as ih =>
      rcases le_total a.probe (highest as) with h | h
      · simp only [highest, max_eq_right h]
        exact ih.imp_right fun hm => by simpa [answered] using .inr (by simpa [answered] using hm)
      · simp [highest, max_eq_left h, answered]

/-- Distinct probe numbers are counted from one, so there are at most `highest` of them. -/
theorem card_answered_le {as : List Ack} (h : ∀ a ∈ as, 1 ≤ a.probe) :
    ((answered as).card : ℤ) ≤ highest as := by
  have hsub : answered as ⊆ Finset.Icc 1 (highest as) := by
    intro k hk
    obtain ⟨a, ha, rfl⟩ : ∃ a ∈ as, a.probe = k := by simpa [answered] using hk
    exact Finset.mem_Icc.mpr ⟨h a ha, le_highest ha⟩
  have hc := Finset.card_le_card hsub
  rw [Int.card_Icc] at hc
  have hn := highest_nonneg as
  omega

structure Probed where
  rts : Rts
  acks : List Ack

def Probed.start (r : Rts) : Probed :=
  ⟨{ r with ntransmitted := 0, acked := 0, nreceived := 0, nerrors := 0, pipesize := -1 }, []⟩

/-- Counting replies and errors is a step of its own: the window only needs that
no more probes are counted than were acknowledged. -/
inductive Event where
  | advance
  | acknowledge (k : ℤ)
  | recount (received errors : ℤ)
deriving Repr, DecidableEq

def Event.Legal : Event → Probed → Prop
  | .advance, _ => True
  | .acknowledge k, s => 1 ≤ k ∧ k ≤ s.rts.ntransmitted
  | .recount received errors, s =>
      0 ≤ received ∧ 0 ≤ errors ∧ received + errors ≤ (answered s.acks).card

def Event.apply : Event → Probed → Probed
  | .advance, s => ⟨advanceNtransmitted s.rts, s.acks⟩
  | .acknowledge k, s =>
      ⟨AckWindow.acknowledge s.rts (u16 k), ⟨k, s.rts.ntransmitted⟩ :: s.acks⟩
  | .recount received errors, s =>
      ⟨{ s.rts with nreceived := received, nerrors := errors }, s.acks⟩

def Step (s t : Probed) : Prop := ∃ e : Event, e.Legal s ∧ t = e.apply s

theorem inFlight_of_le {r : Rts} {a : ℤ} (ha : r.acked = u16 a) (h₀ : a ≤ r.ntransmitted)
    (h₁ : r.ntransmitted - a ≤ 0x7FFF) : inFlight r = r.ntransmitted - a := by
  have hd : u16 (r.ntransmitted - a) = r.ntransmitted - a :=
    u16_of_mem (by omega) (by omega)
  simp only [inFlight, ha, u16_sub_u16, hd, if_pos h₁]
  exact i32_of_mem (by omega) (by unfold intMax; omega)

/-! ## Exactness while the window is not overrun -/

/-- An acknowledgement that the 16-bit sequence number does not confuse with a
later probe of the same low bits. -/
def Event.Recent : Event → Probed → Prop
  | .acknowledge k, s => s.rts.ntransmitted - k ≤ 0xFFFF
  | _, _ => True

def Probed.distance (s : Probed) : ℤ := s.rts.ntransmitted - highest s.acks

def WindowStep (s t : Probed) : Prop :=
  ∃ e : Event, e.Legal s ∧ e.Recent s ∧ t = e.apply s ∧ t.distance ≤ 0x7FFF

/-- What the three 16-bit helpers are meant to maintain. -/
structure Exact (s : Probed) : Prop where
  highest_le : highest s.acks ≤ s.rts.ntransmitted
  distance_le : s.distance ≤ 0x7FFF
  acked : s.rts.acked = u16 (highest s.acks)
  pipesize : s.rts.pipesize = widest s.acks

theorem exact_advance {s : Probed} (h : Exact s)
    (hd : (Event.advance.apply s).distance ≤ 0x7FFF) : Exact (Event.advance.apply s) := by
  have hle := h.highest_le
  simp only [Probed.distance, Event.apply, advanceNtransmitted_ntransmitted] at hd
  refine ⟨?_, hd, ?_, h.pipesize⟩
  · change highest s.acks ≤ s.rts.ntransmitted + 1
    omega
  · change (advanceNtransmitted s.rts).acked = _
    rw [advanceNtransmitted_acked, h.acked, if_neg]
    · rfl
    · have hu : u16 (s.rts.ntransmitted + 1 - highest s.acks) =
          s.rts.ntransmitted + 1 - highest s.acks := u16_of_mem (by omega) (by omega)
      rcases u16_sub_cases (s.rts.ntransmitted + 1) (highest s.acks) with hc | hc <;>
        rw [hc, hu] <;> omega

theorem exact_acknowledge {s : Probed} {k : ℤ} (h : Exact s) (hk : k ≤ s.rts.ntransmitted)
    (hr : s.rts.ntransmitted - k ≤ 0xFFFF) : Exact ((Event.acknowledge k).apply s) := by
  have hle := h.highest_le
  have hdist := h.distance_le
  have hage : u16 (s.rts.ntransmitted - k) = s.rts.ntransmitted - k :=
    u16_of_mem (by omega) (by omega)
  simp only [Probed.distance] at hdist
  refine ⟨?_, ?_, ?_, ?_⟩
  · simp only [Event.apply, highest, acknowledge_ntransmitted]
    omega
  · simp only [Probed.distance, Event.apply, highest, acknowledge_ntransmitted]
    omega
  · simp only [Event.apply, highest]
    rw [acknowledge_acked, u16_sub_u16, hage, h.acked, i16_sub_u16]
    by_cases hyoung : s.rts.ntransmitted - k ≤ 0x7FFF
    · have hd : i16 (k - highest s.acks) = k - highest s.acks :=
        i16_of_mem (by omega) (by omega)
      have hu : u16 (s.rts.ntransmitted - highest s.acks) =
          s.rts.ntransmitted - highest s.acks := u16_of_mem (by omega) (by omega)
      have hint : ¬ u16 s.rts.ntransmitted - u16 (highest s.acks) > 0x7FFF := by
        rcases u16_sub_cases s.rts.ntransmitted (highest s.acks) with hc | hc <;>
          rw [hc, hu] <;> omega
      rw [hd]
      by_cases hnew : highest s.acks < k
      · rw [if_pos ⟨hyoung, .inl (by omega)⟩, max_eq_left hnew.le]
      · rw [if_neg, max_eq_right (by omega)]
        intro hx
        rcases hx with ⟨-, hc | hc⟩
        · omega
        · exact hint hc
    · rw [if_neg (fun hc => hyoung hc.1), max_eq_right (by omega)]
  · simp only [Event.apply, widest, Ack.age]
    rw [acknowledge_pipesize, u16_sub_u16, hage, h.pipesize]
    rfl

theorem exact_step {s t : Probed} (h : Exact s) (hs : WindowStep s t) : Exact t := by
  obtain ⟨e, hl, hr, rfl, hd⟩ := hs
  cases e with
  | advance => exact exact_advance h hd
  | acknowledge k => exact exact_acknowledge h hl.2 hr
  | recount received errors => exact ⟨h.highest_le, h.distance_le, h.acked, h.pipesize⟩

theorem exact_start (r : Rts) : Exact (Probed.start r) := by
  refine ⟨le_rfl, ?_, rfl, rfl⟩
  simp [Probed.distance, Probed.start, highest]

/-- As long as the newest acknowledged probe is within `0x7FFF` of the newest
transmitted one, the 16-bit bookkeeping is exact at every alignment of the wrap. -/
theorem window_exact (r : Rts) {s : Probed}
    (h : Relation.ReflTransGen WindowStep (Probed.start r) s) :
    s.rts.acked = u16 (highest s.acks) ∧
      inFlight s.rts = s.rts.ntransmitted - highest s.acks ∧
      s.rts.pipesize = widest s.acks := by
  have hx : Exact s := by
    induction h with
    | refl => exact exact_start r
    | tail _ hs ih => exact exact_step ih hs
  exact ⟨hx.acked, inFlight_of_le hx.acked hx.highest_le hx.distance_le, hx.pipesize⟩

/-- Two transmissions and a reply to the second one. -/
theorem window_exact_two_probes :
    let s := (Event.acknowledge 2).apply (Event.advance.apply (Event.advance.apply
      (Probed.start {})))
    s.rts.acked = 2 ∧ inFlight s.rts = 0 ∧ s.rts.pipesize = 1 := by
  have h₁ : WindowStep (Probed.start {}) (Event.advance.apply (Probed.start {})) :=
    ⟨.advance, trivial, trivial, rfl, by decide⟩
  have h₂ : WindowStep (Event.advance.apply (Probed.start {}))
      (Event.advance.apply (Event.advance.apply (Probed.start {}))) :=
    ⟨.advance, trivial, trivial, rfl, by decide⟩
  have h₃ : WindowStep (Event.advance.apply (Event.advance.apply (Probed.start {})))
      ((Event.acknowledge 2).apply (Event.advance.apply (Event.advance.apply
        (Probed.start {})))) :=
    ⟨.acknowledge 2, ⟨by decide, by decide⟩, by unfold Event.Recent; decide, rfl, by decide⟩
  exact window_exact {} (((Relation.ReflTransGen.single h₁).tail h₂).tail h₃)

/-! ## The lower bound and where it breaks -/

/-- An empty pipe means that the newest probe was acknowledged, and the reported
number never falls below the true distance (up to `0x7FFF`). -/
def Sound (s : Probed) : Prop :=
  (inFlight s.rts = 0 →
    s.rts.ntransmitted = 0 ∨ s.rts.ntransmitted ∈ answered s.acks) ∧
  min 0x7FFF s.distance ≤ inFlight s.rts

/-- The steps on which the 16-bit comparisons are not deceived: the next sequence
number differs from `acked`, an acknowledgement taken for a young one is young,
and the fallback of `in_flight` fits an `int`. -/
def Event.Unambiguous : Event → Probed → Prop
  | .advance, s =>
      u16 (s.rts.ntransmitted + 1) ≠ s.rts.acked ∧
        s.rts.ntransmitted + 1 - s.rts.nreceived - s.rts.nerrors ≤ intMax
  | .acknowledge k, s =>
      u16 (s.rts.ntransmitted - k) ≤ 0x7FFF → s.rts.ntransmitted - k ≤ 0x7FFF
  | .recount received errors, s => s.rts.ntransmitted - received - errors ≤ intMax

def UnambiguousStep (s t : Probed) : Prop :=
  ∃ e : Event, e.Legal s ∧ e.Unambiguous s ∧ t = e.apply s

/-- `acked` is either the number of some acknowledged probe less than one period
back, or the marker that `advance_ntransmitted` writes. -/
def Tracked (s : Probed) : Prop :=
  (∃ a, a ≤ highest s.acks ∧ s.rts.ntransmitted - a ≤ 0xFFFF ∧ s.rts.acked = u16 a) ∨
    s.rts.acked = u16 (s.rts.ntransmitted + 1)

structure Inv (s : Probed) : Prop where
  probes : ∀ a ∈ s.acks, 1 ≤ a.probe
  highest_le : highest s.acks ≤ s.rts.ntransmitted
  received : 0 ≤ s.rts.nreceived
  errors : 0 ≤ s.rts.nerrors
  counted : s.rts.nreceived + s.rts.nerrors ≤ (answered s.acks).card
  fits : s.rts.ntransmitted - s.rts.nreceived - s.rts.nerrors ≤ intMax
  tracked : Tracked s

theorem inFlight_ge {s : Probed} (h : Inv s) : min 0x7FFF s.distance ≤ inFlight s.rts := by
  have hle := h.highest_le
  have hcard := card_answered_le h.probes
  have hcounted := h.counted
  have hfits := h.fits
  have hfall : i32 (s.rts.ntransmitted - s.rts.nreceived - s.rts.nerrors) =
      s.rts.ntransmitted - s.rts.nreceived - s.rts.nerrors := i32_of_mem (by omega) hfits
  rcases h.tracked with ⟨a, ha, hd, he⟩ | he
  · by_cases hyoung : s.rts.ntransmitted - a ≤ 0x7FFF
    · rw [inFlight_of_le he (by omega) hyoung]
      simp only [Probed.distance]
      omega
    · have hu : u16 (s.rts.ntransmitted - a) = s.rts.ntransmitted - a :=
        u16_of_mem (by omega) (by omega)
      simp only [inFlight, he, u16_sub_u16, hu, if_neg hyoung, hfall, Probed.distance]
      omega
  · have hu : u16 (s.rts.ntransmitted - (s.rts.ntransmitted + 1)) = 65535 := by
      unfold u16
      omega
    have hbig : ¬ (65535 : ℤ) ≤ 0x7FFF := by norm_num
    simp only [inFlight, he, u16_sub_u16, hu, if_neg hbig, hfall, Probed.distance]
    omega

theorem sound_of_inv {s : Probed} (h : Inv s) : Sound s := by
  have hge := inFlight_ge h
  refine ⟨fun hz => ?_, hge⟩
  have hle := h.highest_le
  have heq : highest s.acks = s.rts.ntransmitted := by
    rw [hz, Probed.distance] at hge
    omega
  rw [← heq]
  exact highest_mem s.acks

theorem tracked_advance {s : Probed} (h : Inv s)
    (hne : u16 (s.rts.ntransmitted + 1) ≠ s.rts.acked) : Tracked (Event.advance.apply s) := by
  rcases h.tracked with ⟨a, ha, hd, he⟩ | he
  · simp only [Tracked, Event.apply, advanceNtransmitted_acked, advanceNtransmitted_ntransmitted]
    split_ifs with hover
    · right
      unfold u16
      omega
    · refine .inl ⟨a, ha, ?_, he⟩
      have hlap : s.rts.ntransmitted + 1 ≠ a + 65536 := by
        intro hlap
        apply hne
        rw [he, hlap]
        unfold u16
        omega
      omega
  · exact absurd he.symm hne

theorem tracked_acknowledge {s : Probed} {k : ℤ} (h : Inv s)
    (hyoung : u16 (s.rts.ntransmitted - k) ≤ 0x7FFF → s.rts.ntransmitted - k ≤ 0x7FFF) :
    Tracked ((Event.acknowledge k).apply s) := by
  simp only [Tracked, Event.apply, acknowledge_acked, acknowledge_ntransmitted, u16_sub_u16,
    highest]
  split_ifs with hc
  · exact .inl ⟨k, le_max_left _ _, (hyoung hc.1).trans (by norm_num), rfl⟩
  · refine h.tracked.imp_left ?_
    intro hx
    rcases hx with ⟨a, ha, hd, he⟩
    exact ⟨a, le_max_of_le_right ha, hd, he⟩

theorem inv_step {s t : Probed} (h : Inv s) (hs : UnambiguousStep s t) : Inv t := by
  obtain ⟨e, hl, hu, rfl⟩ := hs
  cases e with
  | advance =>
      exact ⟨h.probes, h.highest_le.trans (by simp [Event.apply]), h.received, h.errors,
        h.counted, hu.2, tracked_advance h hu.1⟩
  | acknowledge k =>
      have hsub : answered s.acks ⊆ answered (⟨k, s.rts.ntransmitted⟩ :: s.acks) := by
        intro x hx
        simp only [answered, List.map_cons, List.toFinset_cons]
        exact Finset.mem_insert_of_mem hx
      have hcard : ((answered s.acks).card : ℤ) ≤
          (answered (⟨k, s.rts.ntransmitted⟩ :: s.acks)).card := by
        exact_mod_cast Finset.card_le_card hsub
      refine ⟨?_, ?_, ?_, ?_, ?_, ?_, tracked_acknowledge h hu⟩
      · intro a ha
        rcases List.mem_cons.mp ha with rfl | ha
        · exact hl.1
        · exact h.probes a ha
      · simp only [Event.apply, highest, acknowledge_ntransmitted]
        exact max_le hl.2 h.highest_le
      · simpa only [Event.apply, acknowledge_nreceived] using h.received
      · simpa only [Event.apply, acknowledge_nerrors] using h.errors
      · simp only [Event.apply, acknowledge_nreceived, acknowledge_nerrors]
        exact h.counted.trans hcard
      · simpa only [Event.apply, acknowledge_ntransmitted, acknowledge_nreceived,
          acknowledge_nerrors] using h.fits
  | recount received errors =>
      exact ⟨h.probes, h.highest_le, hl.1, hl.2.1, hl.2.2, hu, h.tracked⟩

theorem inv_start (r : Rts) : Inv (Probed.start r) := by
  refine ⟨by simp [Probed.start], le_rfl, le_rfl, le_rfl, ?_, ?_, ?_⟩
  · simp [Probed.start]
  · simp [Probed.start, intMax]
  · exact .inl ⟨0, le_rfl, by simp [Probed.start], rfl⟩

/-- A transmission that lands on `acked` makes the pipe look empty. -/
theorem inFlight_collision {r : Rts} (h : u16 (r.ntransmitted + 1) = r.acked) :
    inFlight (advanceNtransmitted r) = 0 := by
  have ha : (advanceNtransmitted r).acked = r.acked := by
    rw [advanceNtransmitted_acked, if_neg (by omega)]
  have hz : u16 0 = 0 := rfl
  simp only [inFlight, ha, advanceNtransmitted_ntransmitted, ← h, sub_self, hz]
  norm_num [i32]

theorem not_sound_collision {s : Probed} (hi : Inv s)
    (h : u16 (s.rts.ntransmitted + 1) = s.rts.acked) : ¬ Sound (Event.advance.apply s) := by
  intro hs
  have hle := hi.highest_le
  have hge := hs.2
  rw [show inFlight (Event.advance.apply s).rts = 0 from inFlight_collision h] at hge
  simp only [Probed.distance, Event.apply, advanceNtransmitted_ntransmitted] at hge
  omega

/-- `in_flight` keeps its lower bound along every run of unambiguous steps, and
the condition on transmissions cannot be dropped: from any such state, sending
the probe whose sequence number equals `acked` breaks the bound at once. -/
theorem inFlight_sound (r : Rts) {s : Probed}
    (h : Relation.ReflTransGen UnambiguousStep (Probed.start r) s) :
    Sound s ∧
      (u16 (s.rts.ntransmitted + 1) = s.rts.acked → ¬ Sound (Event.advance.apply s)) := by
  have hi : Inv s := by
    induction h with
    | refl => exact inv_start r
    | tail _ hs ih => exact inv_step ih hs
  exact ⟨sound_of_inv hi, not_sound_collision hi⟩

/-- Two probes, a counted reply to the second one, and a third probe. -/
theorem inFlight_sound_three_probes :
    Sound (Event.advance.apply ((Event.recount 1 0).apply ((Event.acknowledge 2).apply
      (Event.advance.apply (Event.advance.apply (Probed.start {})))))) := by
  have h₁ : UnambiguousStep (Probed.start {}) (Event.advance.apply (Probed.start {})) :=
    ⟨.advance, trivial, ⟨by decide, by decide⟩, rfl⟩
  have h₂ : UnambiguousStep (Event.advance.apply (Probed.start {}))
      (Event.advance.apply (Event.advance.apply (Probed.start {}))) :=
    ⟨.advance, trivial, ⟨by decide, by decide⟩, rfl⟩
  have h₃ : UnambiguousStep (Event.advance.apply (Event.advance.apply (Probed.start {})))
      ((Event.acknowledge 2).apply (Event.advance.apply (Event.advance.apply
        (Probed.start {})))) :=
    ⟨.acknowledge 2, ⟨by decide, by decide⟩, fun _ => by decide, rfl⟩
  have h₄ : UnambiguousStep
      ((Event.acknowledge 2).apply (Event.advance.apply (Event.advance.apply (Probed.start {}))))
      ((Event.recount 1 0).apply ((Event.acknowledge 2).apply (Event.advance.apply
        (Event.advance.apply (Probed.start {}))))) :=
    ⟨.recount 1 0, ⟨by decide, by decide, by decide⟩, by unfold Event.Unambiguous; decide, rfl⟩
  have h₅ : UnambiguousStep
      ((Event.recount 1 0).apply ((Event.acknowledge 2).apply (Event.advance.apply
        (Event.advance.apply (Probed.start {})))))
      (Event.advance.apply ((Event.recount 1 0).apply ((Event.acknowledge 2).apply
        (Event.advance.apply (Event.advance.apply (Probed.start {})))))) :=
    ⟨.advance, trivial, ⟨by decide, by decide⟩, rfl⟩
  exact (inFlight_sound {} (((((Relation.ReflTransGen.single h₁).tail h₂).tail h₃).tail
    h₄).tail h₅)).1

def silent : ℕ → Probed
  | 0 => Probed.start {}
  | n + 1 => Event.advance.apply (silent n)

theorem silent_reachable (n : ℕ) :
    Relation.ReflTransGen Step (Probed.start {}) (silent n) := by
  induction n with
  | zero => exact .refl
  | succ n ih => exact ih.tail ⟨.advance, trivial, rfl⟩

theorem silent_acks (n : ℕ) : (silent n).acks = [] := by
  induction n with
  | zero => rfl
  | succ n ih => exact ih

theorem silent_ntransmitted (n : ℕ) : (silent n).rts.ntransmitted = n := by
  induction n with
  | zero => rfl
  | succ n ih =>
      simp only [silent, Event.apply, advanceNtransmitted_ntransmitted, ih]
      push_cast
      rfl

theorem silent_acked {n : ℕ} (h : n ≤ 0x7FFF) : (silent n).rts.acked = 0 := by
  induction n with
  | zero => rfl
  | succ n ih =>
      simp only [silent, Event.apply]
      rw [advanceNtransmitted_acked, silent_ntransmitted, ih (by omega), if_neg]
      unfold u16
      omega

/-- The step that writes the marker. -/
theorem silent_marker {n : ℕ} (h : n = 0x7FFF) : (silent (n + 1)).rts.acked = 0x8001 := by
  simp only [silent, Event.apply]
  rw [advanceNtransmitted_acked, silent_ntransmitted, silent_acked h.le, h]
  decide

theorem silent_empty {n : ℕ} (h : n = 0x7FFF) : inFlight (silent (n + 2)).rts = 0 := by
  apply inFlight_collision
  rw [silent_ntransmitted, silent_marker h, h]
  decide

/-- 32769 probes to a host that never answers: the marker written for probe 32768
is the sequence number of probe 32769, and the pipe is reported empty. -/
theorem silent_not_sound :
    ∃ s, Relation.ReflTransGen Step (Probed.start {}) s ∧ s.rts.ntransmitted = 32769 ∧
      s.acks = [] ∧ inFlight s.rts = 0 ∧ ¬ Sound s := by
  have hz : inFlight (silent 32769).rts = 0 := silent_empty rfl
  refine ⟨silent 32769, silent_reachable _, silent_ntransmitted _, silent_acks _, hz, ?_⟩
  intro hsound
  rcases hsound.1 hz with h | h
  · rw [silent_ntransmitted] at h
    norm_num at h
  · rw [silent_acks] at h
    simp [answered] at h

end Iputils.AckWindow
