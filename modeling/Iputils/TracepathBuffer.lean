import Iputils.Tracepath

/-!
# The packet buffer of tracepath

`main` allocates the buffer once, for the packet length it starts with. From then on
`ctl->mtu` is the number of bytes to clear, to send and to receive, and every
`EMSGSIZE` on the error queue overwrites it. `main` refuses a length that leaves no
room for the headers; `recverr` compares the new one with nothing.
-/
set_option autoImplicit false

namespace Iputils.TracepathBuffer
open MachineInt Tracepath

/-- The calls of `probe_ttl` stay in a buffer of `size` bytes. -/
structure Safe (size : ℤ) (ctl : RunState) : Prop where
  above : ctl.overhead < ctl.mtu
  below : ctl.mtu ≤ size
  memset : u64 ctl.mtu ≤ size
  sendto : u64 (ctl.mtu - ctl.overhead) ≤ size
  sendto_pos : 0 < ctl.mtu - ctl.overhead
  recv : u64 ctl.mtu ≤ size

/-- The conversions to `size_t` do nothing between the two bounds. -/
theorem safe_iff {size : ℤ} {ctl : RunState} (h₀ : 0 ≤ ctl.overhead) (h₁ : size ≤ intMax) :
    Safe size ctl ↔ ctl.overhead < ctl.mtu ∧ ctl.mtu ≤ size := by
  refine ⟨fun h => ⟨h.above, h.below⟩, ?_⟩
  rintro ⟨habove, hbelow⟩
  have hlen : ∀ n, 0 ≤ n → n ≤ ctl.mtu → u64 n ≤ size := by
    intro n hn hle
    unfold u64
    unfold intMax at h₁
    omega
  exact ⟨habove, hbelow, hlen _ (by omega) le_rfl, hlen _ (by omega) (by omega), by omega,
    hlen _ (by omega) le_rfl⟩

section Setup

theorem fit_bounds {ctl ctl' : RunState} {overhead defaultMtu : ℤ}
    (hmtu : ctl.mtu ≤ intMax) (hdefault : defaultMtu ≤ intMax)
    (h : ctl.fit overhead defaultMtu = some ctl') :
    ctl'.overhead = overhead ∧ overhead < ctl'.mtu ∧ ctl'.mtu ≤ intMax := by
  unfold RunState.fit at h
  dsimp only at h
  split_ifs at h with h₀ h₁ h₁
  · cases h
    exact ⟨rfl, by dsimp only; omega, hdefault⟩
  · cases h
    exact ⟨rfl, by dsimp only; omega, hmtu⟩

/-- What `main` has checked when it allocates the buffer. -/
theorem setup_bounds {o : Options} {target : Target} {ctl : RunState}
    (h : setup o target = some ctl) :
    0 ≤ ctl.overhead ∧ ctl.overhead < ctl.mtu ∧ ctl.mtu ≤ intMax := by
  unfold setup at h
  dsimp only at h
  cases target with
  | inet =>
      obtain ⟨hover, hlt, hle⟩ := fit_bounds o.mtu_le (by decide) h
      exact ⟨by rw [hover]; decide, by rw [hover]; exact hlt, hle⟩
  | inet6 mapped =>
      obtain ⟨ctl₆, h₆, h⟩ := Option.bind_eq_some_iff.mp h
      obtain ⟨hover, hlt, hle⟩ := fit_bounds o.mtu_le (by decide) h₆
      split_ifs at h
      · obtain ⟨hover, hlt, hle⟩ := fit_bounds hle (by decide) h
        exact ⟨by rw [hover]; decide, by rw [hover]; exact hlt, hle⟩
      · cases h
        exact ⟨by rw [hover]; decide, by rw [hover]; exact hlt, hle⟩

end Setup

section Runs
variable (accepts : ℤ → Bool)

/-- A step takes over the path MTU of its event, if that has one. -/
theorem step_mtu {m m' : Machine} {e : Event} (h : m.step accepts e = some m') :
    m'.ctl.mtu = e.newMtu.getD m.ctl.mtu ∧ m'.ctl.overhead = m.ctl.overhead := by
  obtain ⟨ttl, his, hisptr, hopsTo, hopsFrom, hctl, -⟩ := step_frame accepts h
  rw [hctl]
  exact ⟨rfl, rfl⟩

/-- Every path MTU that the events bring lies between the overhead and the buffer. -/
def Fitting (overhead size : ℤ) (es : List Event) : Prop :=
  ∀ e ∈ es, ∀ mtu, e.newMtu = some mtu → overhead < mtu ∧ mtu ≤ size

theorem run_overhead {m m' : Machine} {es : List Event} (h : m.run accepts es = some m') :
    m'.ctl.overhead = m.ctl.overhead := by
  refine run_invariant accepts (P := fun _ x => x.ctl.overhead = m.ctl.overhead) ?_ rfl h
  intro e es x x' hstep hx
  exact (step_mtu accepts hstep).2.trans hx

/-- The length stays between its bounds and what is still to come fits. -/
theorem step_bounds {size : ℤ} {m m' : Machine} {e : Event} {es : List Event}
    (h : m.step accepts e = some m')
    (hm : (m.ctl.overhead < m.ctl.mtu ∧ m.ctl.mtu ≤ size) ∧ Fitting m.ctl.overhead size (e :: es)) :
    (m'.ctl.overhead < m'.ctl.mtu ∧ m'.ctl.mtu ≤ size) ∧ Fitting m'.ctl.overhead size es := by
  obtain ⟨hmtu, hover⟩ := step_mtu accepts h
  obtain ⟨hbounds, hfit⟩ := hm
  rw [hmtu, hover]
  refine ⟨?_, fun e' he' => hfit e' (List.mem_cons_of_mem e he')⟩
  cases he : e.newMtu with
  | none => exact hbounds
  | some mtu => exact hfit e List.mem_cons_self mtu he

/-- The invariant of the loop, for a run whose messages all fit. -/
theorem run_bounds {size : ℤ} {m m' : Machine} {es : List Event}
    (hm : m.ctl.overhead < m.ctl.mtu ∧ m.ctl.mtu ≤ size)
    (hfit : Fitting m.ctl.overhead size es) (h : m.run accepts es = some m') :
    m'.ctl.overhead < m'.ctl.mtu ∧ m'.ctl.mtu ≤ size := by
  refine (run_invariant accepts (P := fun es x => (x.ctl.overhead < x.ctl.mtu ∧ x.ctl.mtu ≤ size) ∧
    Fitting x.ctl.overhead size es) ?_ ⟨hm, hfit⟩ h).1
  intro e es x x' hstep hx
  exact step_bounds accepts hstep hx

/-- Conversely the state behind a message shows its path MTU. -/
theorem mtu_after_event {m m' : Machine} {es es' : List Event} {e : Event} {mtu : ℤ}
    (h : m.run accepts (es ++ e :: es') = some m') (he : e.newMtu = some mtu) :
    ∃ m₁, m.run accepts (es ++ [e]) = some m₁ ∧ m₁.ctl.mtu = mtu := by
  rw [run_append] at h
  obtain ⟨m₀, h₀, h⟩ := Option.bind_eq_some_iff.mp h
  obtain ⟨m₁, hstep, -⟩ := Option.bind_eq_some_iff.mp h
  refine ⟨m₁, ?_, ?_⟩
  · rw [run_append, h₀]
    exact Option.bind_eq_some_iff.mpr ⟨m₀, rfl, Option.bind_eq_some_iff.mpr ⟨m₁, hstep, rfl⟩⟩
  · rw [(step_mtu accepts hstep).1, he]
    rfl

end Runs

/-- The buffer suffices in every state of a run exactly when no message of the error
queue brings a path MTU beyond it, or one that the headers use up. -/
theorem buffer_suffices_iff (o : Options) (target : Target) (ctl : RunState)
    (h : setup o target = some ctl) (accepts : ℤ → Bool) (es : List Event) (m : Machine)
    (hrun : (Machine.start accepts ctl).run accepts es = some m) :
    (∀ es' m', es' <+: es → (Machine.start accepts ctl).run accepts es' = some m' →
        Safe ctl.mtu m'.ctl) ↔
      Fitting ctl.overhead ctl.mtu es := by
  obtain ⟨h₀, hlt, hle⟩ := setup_bounds h
  have hstart : (Machine.start accepts ctl).ctl = { ctl with ttl := 1 } := enterHop_ctl accepts _
  constructor
  · intro hsafe e he mtu hnew
    obtain ⟨pre, post, rfl⟩ := List.mem_iff_append.mp he
    obtain ⟨m₁, h₁, hmtu⟩ := mtu_after_event accepts hrun hnew
    have hs := hsafe (pre ++ [e]) m₁ ⟨post, by simp⟩ h₁
    have hover := run_overhead accepts h₁
    rw [hstart] at hover
    dsimp only at hover
    rw [← hmtu, ← hover]
    exact ⟨hs.above, hs.below⟩
  · intro hfit es' m' hbegin hrun'
    have hover := run_overhead accepts hrun'
    rw [hstart] at hover
    dsimp only at hover
    refine (safe_iff (by rw [hover]; exact h₀) hle).mpr ?_
    refine run_bounds accepts ?_ ?_ hrun'
    · rw [hstart]
      exact ⟨hlt, le_rfl⟩
    · rw [hstart]
      exact fun e he => hfit e (hbegin.subset he)

/-- A probe that does not fit the first link. -/
def tooBig (info : ℤ) : List Event :=
  [.send false ⟨1, 0⟩, .recvmsg (.message
    { port := 44444, size := 0, cmsgs := [.recverr ⟨.emsgsize, .icmp6, 2, 0, info⟩] })]

/-- The machine behind `tooBig` for an IPv6 target and default options. -/
def afterTooBig (info : ℤ) : Machine :=
  { ctl :=
      { his := (clearEntry (RunState.record
          { ttl := 1, mtu := 128000, overhead := 48 } ⟨1, 0⟩) 44444).his
        ttl := 1, mtu := info, overhead := 48 }
    pc := .recverrProbe 0 info
    oldMtu := 128000
    log := [.setTtl 1] }

theorem buffer_suffices_ethernet :
    setup {} (.inet6 false) = some { mtu := 128000, overhead := 48 } ∧
      ((∀ es' m', es' <+: tooBig 1500 → (Machine.start (fun _ => true)
          { mtu := 128000, overhead := 48 }).run (fun _ => true) es' = some m' →
            Safe 128000 m'.ctl) ↔ Fitting 48 128000 (tooBig 1500)) :=
  ⟨rfl, buffer_suffices_iff {} (.inet6 false) { mtu := 128000, overhead := 48 } rfl
    (fun _ => true) (tooBig 1500) (afterTooBig 1500) rfl⟩

/-- A router that reports an MTU of 200000 makes the next probe read and clear
beyond the 128000 bytes of the buffer. -/
theorem router_overruns_buffer :
    setup {} (.inet6 false) = some { mtu := 128000, overhead := 48 } ∧
      ∃ m, (Machine.start (fun _ => true) { mtu := 128000, overhead := 48 }).run (fun _ => true)
        (tooBig 200000) = some m ∧ ¬ Safe 128000 m.ctl := by
  refine ⟨rfl, afterTooBig 200000, rfl, fun h => ?_⟩
  have hbelow : (200000 : ℤ) ≤ 128000 := h.below
  omega

end Iputils.TracepathBuffer
