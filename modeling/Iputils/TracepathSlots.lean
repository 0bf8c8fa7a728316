import Iputils.Tracepath

/-!
# Ports, slots and probes of tracepath

A probe goes to the port `base_port + hisptr`, and its time to live and the time it is
sent at stay in that slot of the history. An error that comes back with the port alone
is matched through the slot. The slot is free again when the ring has gone round; until
then its entry is lost only to a message for the port, or to `probe_ttl` itself when
`sendto` fails.
-/
set_option autoImplicit false

namespace Iputils.TracepathSlots
open MachineInt PingState Tracepath

section Entries

theorem historyEntry_eq_some {ctl : RunState} {port : ℤ} {slot : ℕ}
    (hport : slotOf ctl port = slot) (hlt : slot < hisArraySize - 1)
    (hne : (ctl.his slot).hops ≠ 0) : historyEntry ctl port = some (ctl.his slot) := by
  unfold historyEntry
  dsimp only
  rw [hport, Int.toNat_natCast]
  refine if_pos ⟨by omega, ?_, hne⟩
  unfold hisArraySize at *
  omega

theorem historyEntry_eq_none {ctl : RunState} {port : ℤ}
    (h : ∀ slot : ℕ, slotOf ctl port = slot → slot < hisArraySize - 1 →
      (ctl.his slot).hops = 0) : historyEntry ctl port = none := by
  unfold historyEntry
  dsimp only
  refine if_neg ?_
  rintro ⟨h₀, hlt, hne⟩
  refine hne (h (slotOf ctl port).toNat (by omega) ?_)
  unfold hisArraySize at *
  omega

theorem historyEntry_found {ctl : RunState} {port : ℤ} {entry : Hhistory}
    (h : historyEntry ctl port = some entry) :
    ∃ slot : ℕ, slotOf ctl port = slot ∧ slot < hisArraySize - 1 ∧ entry.hops ≠ 0 ∧
      ctl.his slot = entry := by
  unfold historyEntry at h
  dsimp only at h
  split_ifs at h with hfound
  obtain ⟨h₀, hlt, hne⟩ := hfound
  refine ⟨(slotOf ctl port).toNat, by omega, ?_, ?_, Option.some.inj h⟩
  · unfold hisArraySize at *
    omega
  · rw [← Option.some.inj h]
    exact hne

/-- A message takes the number of hops from the entry of its port and no other. -/
theorem clearEntry_his (ctl : RunState) (port : ℤ) (slot : ℕ) :
    (clearEntry ctl port).his slot =
      if slotOf ctl port = slot ∧ slot < hisArraySize - 1 then { ctl.his slot with hops := 0 }
      else ctl.his slot := by
  unfold clearEntry
  by_cases hslot : slotOf ctl port = slot ∧ slot < hisArraySize - 1
  · rw [if_pos hslot]
    obtain ⟨hport, hlt⟩ := hslot
    by_cases hzero : (ctl.his slot).hops = 0
    · have hnone : historyEntry ctl port = none := historyEntry_eq_none fun slot' h' _ => by
        have : slot' = slot := by omega
        rw [this, hzero]
      rw [hnone, ← hzero]
      rfl
    · rw [historyEntry_eq_some hport hlt hzero, hport]
      exact Function.update_self slot _ ctl.his
  · rw [if_neg hslot]
    by_cases hsome : (historyEntry ctl port).isSome = true
    · have hne : slot ≠ (slotOf ctl port).toNat := by
        rintro rfl
        refine absurd hsome ?_
        rw [historyEntry_eq_none fun slot' h' hlt => absurd ⟨by omega, ?_⟩ hslot]
        · exact nofun
        · omega
      rw [if_pos hsome]
      exact Function.update_of_ne hne _ ctl.his
    · rw [if_neg hsome]

/-- The port that an event brings a message for. -/
def Event.port : Event → Option ℤ
  | .recvmsg (.message m) => some m.port
  | _ => none

theorem clear_his (ctl : RunState) (e : Event) {slot : ℕ} (hslot : slot < hisArraySize - 1) :
    (Event.clear ctl e).his slot =
      if Event.port e = some (ctl.basePort + slot) then { ctl.his slot with hops := 0 }
      else ctl.his slot := by
  cases e with
  | send ok now => rfl
  | recv reply => rfl
  | recvmsg r =>
      cases r with
      | again => rfl
      | failed => rfl
      | message m =>
          have hiff : (slotOf ctl m.port = slot ∧ slot < hisArraySize - 1) ↔
              Event.port (.recvmsg (.message m)) = some (ctl.basePort + slot) := by
            unfold slotOf Event.port
            rw [Option.some.injEq]
            constructor
            · rintro ⟨h, -⟩
              omega
            · intro h
              exact ⟨by omega, hslot⟩
          simp only [Event.clear, clearEntry_his, hiff]

end Entries

section Steps
variable {accepts : ℤ → Bool}

/-- `recverr` is running for a probe of this slot that could not be sent. -/
def Failing (slot : ℕ) (m : Machine) : Prop :=
  m.ctl.hisptr = slot ∧ ∃ i progress, m.pc = .recverrProbe i progress

/-- A message leaves everything of the history but one entry alone. -/
theorem recverr_his (ctl : RunState) (progress : ℤ) (r : Recv) :
    (recverr ctl progress r).1.his = (Event.clear ctl (.recvmsg r)).his ∧
      (recverr ctl progress r).1.hisptr = ctl.hisptr := by
  obtain ⟨hopsTo, hopsFrom, h⟩ := recverr_frame ctl progress r
  rw [h]
  exact ⟨rfl, rfl⟩

theorem not_failing_of_pc {slot : ℕ} {m : Machine} (h : ∀ i progress, m.pc ≠ .recverrProbe i progress) :
    ¬ Failing slot m := by
  rintro ⟨-, i, progress, hpc⟩
  exact h i progress hpc

theorem not_failing_afterProbe (slot : ℕ) (m : Machine) (res : ℤ) :
    ¬ Failing slot (m.afterProbe accepts res) := by
  rintro ⟨-, i, progress, hpc⟩
  have hprobe := afterProbe_pc accepts m res (by rw [hpc]; exact nofun) (by rw [hpc]; exact nofun)
  rw [hpc] at hprobe
  cases hprobe

theorem not_failing_afterFailure (slot : ℕ) (m : Machine) (i : ℕ) (res : ℤ) :
    ¬ Failing slot (m.afterFailure accepts i res) := by
  rintro ⟨-, i', progress, hpc⟩
  obtain ⟨j, hprobe⟩ := afterFailure_pc accepts m i res (by rw [hpc]; exact nofun)
    (by rw [hpc]; exact nofun)
  rw [hpc] at hprobe
  cases hprobe

theorem afterProbe_his (m : Machine) (res : ℤ) : (m.afterProbe accepts res).ctl.his = m.ctl.his := by
  obtain ⟨ttl, h⟩ := afterProbe_ctl accepts m res
  rw [h]

/-- A step that does not use the slot for a probe, outside the failure of one. -/
theorem step_his {m m' : Machine} {e : Event} {slot : ℕ} (h : m.step accepts e = some m')
    (hfree : ∀ ok now, e = .send ok now → m.ctl.hisptr ≠ slot) (hm : ¬ Failing slot m) :
    ¬ Failing slot m' ∧ m'.ctl.his slot = (Event.clear m.ctl e).his slot := by
  obtain ⟨i, ok, now, hpc, rfl, rfl⟩ | ⟨reply, hpc, rfl, rfl⟩ |
    ⟨i, progress, r, hpc, rfl, ⟨p, rfl⟩ | ⟨res, rfl⟩⟩ |
    ⟨progress, r, hpc, rfl, ⟨p, rfl⟩ | ⟨res, rfl⟩⟩ := step_cases accepts h
  · have hne : m.ctl.hisptr ≠ slot := hfree ok now rfl
    have hhis : (m.ctl.record now).his slot = m.ctl.his slot :=
      Function.update_of_ne hne.symm _ m.ctl.his
    cases ok with
    | true => exact ⟨not_failing_of_pc fun _ _ => nofun, hhis⟩
    | false => exact ⟨fun hf => hne hf.1, hhis⟩
  · cases reply with
    | true => exact ⟨not_failing_afterProbe slot m 0, by rw [if_pos rfl, afterProbe_his]; rfl⟩
    | false => exact ⟨not_failing_of_pc fun _ _ => nofun, rfl⟩
  all_goals obtain ⟨hhis, hptr⟩ := recverr_his m.ctl progress r
  · have hne : m.ctl.hisptr ≠ slot := fun heq => hm ⟨heq, i, progress, hpc⟩
    exact ⟨fun hf => hne (hptr.symm.trans hf.1), by rw [← hhis]⟩
  · have hne : m.ctl.hisptr ≠ slot := fun heq => hm ⟨heq, i, progress, hpc⟩
    refine ⟨not_failing_afterFailure slot _ i res, ?_⟩
    obtain ⟨ttl, hisptr, hctl, -⟩ := afterFailure_ctl accepts
      { m with ctl := (recverr m.ctl progress r).1 } i res
    rw [hctl, ← hhis]
    exact Function.update_of_ne (by rw [hptr]; exact hne.symm) _ _
  · exact ⟨not_failing_of_pc fun _ _ => nofun, by rw [← hhis]⟩
  · exact ⟨not_failing_afterProbe slot _ res, by rw [afterProbe_his, ← hhis]⟩

/-- The failure of a probe ends with its entry cleared. -/
theorem step_failing {m m' : Machine} {e : Event} {slot : ℕ} (h : m.step accepts e = some m')
    (hm : Failing slot m) :
    (Failing slot m' ∧ m'.ctl.his slot = (Event.clear m.ctl e).his slot) ∨
      (¬ Failing slot m' ∧ (m'.ctl.his slot).hops = 0) := by
  obtain ⟨rfl, i₀, progress₀, hpc₀⟩ := hm
  obtain ⟨i, ok, now, hpc, rfl, rfl⟩ | ⟨reply, hpc, rfl, rfl⟩ |
    ⟨i, progress, r, hpc, rfl, ⟨p, rfl⟩ | ⟨res, rfl⟩⟩ |
    ⟨progress, r, hpc, rfl, ⟨p, rfl⟩ | ⟨res, rfl⟩⟩ := step_cases accepts h
  all_goals rw [hpc₀] at hpc
  · cases hpc
  · cases hpc
  all_goals obtain ⟨hhis, hptr⟩ := recverr_his m.ctl progress r
  · exact .inl ⟨⟨hptr, i, p, rfl⟩, by rw [← hhis]⟩
  · refine .inr ⟨not_failing_afterFailure _ _ i res, ?_⟩
    obtain ⟨ttl, hisptr, hctl, -⟩ := afterFailure_ctl accepts
      { m with ctl := (recverr m.ctl progress r).1 } i res
    rw [hctl]
    dsimp only [RunState.setHops]
    rw [hptr, Function.update_self]
  · cases hpc
  · cases hpc

/-- What a step makes of the entry of a slot that it does not use for a probe. -/
theorem step_entry {m m' : Machine} {e : Event} {slot : ℕ} (h : m.step accepts e = some m')
    (hfree : ∀ ok now, e = .send ok now → m.ctl.hisptr ≠ slot) :
    ((Failing slot m' ↔ Failing slot m) ∧ m'.ctl.his slot = (Event.clear m.ctl e).his slot) ∨
      (Failing slot m ∧ ¬ Failing slot m' ∧ (m'.ctl.his slot).hops = 0) := by
  by_cases hm : Failing slot m
  · obtain ⟨hm', hhis⟩ | ⟨hm', hzero⟩ := step_failing h hm
    · exact .inl ⟨iff_of_true hm' hm, hhis⟩
    · exact .inr ⟨hm, hm', hzero⟩
  · obtain ⟨hm', hhis⟩ := step_his h hfree hm
    exact .inl ⟨iff_of_false hm' hm, hhis⟩

/-- The base of the ports stays, and the ring goes on by one slot at most. -/
theorem step_ring {m m' : Machine} {e : Event} (h : m.step accepts e = some m') :
    m'.ctl.basePort = m.ctl.basePort ∧
      (m'.ctl.hisptr = m.ctl.hisptr ∨ m'.ctl.hisptr = (m.ctl.hisptr + 1) % hisArraySize) := by
  obtain ⟨ttl, his, hisptr, hopsTo, hopsFrom, hctl, hnext⟩ := step_frame accepts h
  rw [hctl]
  exact ⟨rfl, hnext⟩

end Steps

section Runs
variable (accepts : ℤ → Bool)

/-- No probe of the run is sent with this slot. -/
def NotReused (slot : ℕ) (m : Machine) (es : List Event) : Prop :=
  ∀ es₁ es₂ ok now m', es = es₁ ++ .send ok now :: es₂ → m.run accepts es₁ = some m' →
    m'.ctl.hisptr ≠ slot

variable {accepts}

theorem NotReused.head {slot : ℕ} {m : Machine} {e : Event} {es : List Event}
    (h : NotReused accepts slot m (e :: es)) (ok : Bool) (now : Timespec) (he : e = .send ok now) :
    m.ctl.hisptr ≠ slot := h [] es ok now m (by rw [he]; rfl) rfl

theorem NotReused.tail {slot : ℕ} {m m' : Machine} {e : Event} {es : List Event}
    (h : NotReused accepts slot m (e :: es)) (hstep : m.step accepts e = some m') :
    NotReused accepts slot m' es := by
  intro es₁ es₂ ok now m'' hes hrun
  refine h (e :: es₁) es₂ ok now m'' (by rw [hes]; rfl) ?_
  unfold Machine.run
  rw [hstep]
  exact hrun

theorem run_ring {m m' : Machine} {es : List Event} (h : m.run accepts es = some m')
    (hlt : m.ctl.hisptr < hisArraySize) :
    m'.ctl.basePort = m.ctl.basePort ∧ m'.ctl.hisptr < hisArraySize := by
  refine run_invariant accepts
    (P := fun _ x => x.ctl.basePort = m.ctl.basePort ∧ x.ctl.hisptr < hisArraySize) ?_ ⟨rfl, hlt⟩ h
  rintro e es x x' hstep ⟨hport, hptr⟩
  obtain ⟨hbase, hnext⟩ := step_ring hstep
  refine ⟨hbase.trans hport, ?_⟩
  unfold hisArraySize at *
  omega

theorem run_not_failing {m m' : Machine} {es : List Event} {slot : ℕ}
    (h : m.run accepts es = some m') (hfree : NotReused accepts slot m es)
    (hm : ¬ Failing slot m) : ¬ Failing slot m' := by
  refine (run_invariant accepts (P := fun es x => NotReused accepts slot x es ∧ ¬ Failing slot x)
    ?_ ⟨hfree, hm⟩ h).2
  rintro e es x x' hstep ⟨hrest, hx⟩
  exact ⟨hrest.tail hstep, (step_his hstep hrest.head hx).1⟩

/-- Once the number of hops is gone, only a new probe brings it back. -/
theorem run_cleared {m m' : Machine} {es : List Event} {slot : ℕ} (hslot : slot < hisArraySize - 1)
    (h : m.run accepts es = some m') (hfree : NotReused accepts slot m es)
    (hzero : (m.ctl.his slot).hops = 0) : (m'.ctl.his slot).hops = 0 := by
  refine (run_invariant accepts
    (P := fun es x => NotReused accepts slot x es ∧ (x.ctl.his slot).hops = 0) ?_ ⟨hfree, hzero⟩ h).2
  rintro e es x x' hstep ⟨hrest, hx⟩
  refine ⟨hrest.tail hstep, ?_⟩
  obtain ⟨-, hhis⟩ | ⟨-, -, hzero₁⟩ := step_entry hstep hrest.head
  · rw [hhis, clear_his x.ctl e hslot]
    split_ifs
    · rfl
    · exact hx
  · exact hzero₁

/-- The entry stays as it is up to the first message for its port, and to the end of
the failure of its probe. -/
theorem run_entry {m m' : Machine} {es : List Event} {slot : ℕ} (hslot : slot < hisArraySize - 1)
    (h : m.run accepts es = some m') (hfree : NotReused accepts slot m es) :
    ((∃ e ∈ es, Event.port e = some (m.ctl.basePort + slot)) ∨ (Failing slot m ∧ ¬ Failing slot m') →
        (m'.ctl.his slot).hops = 0) ∧
      ((∀ e ∈ es, Event.port e ≠ some (m.ctl.basePort + slot)) →
        (Failing slot m → Failing slot m') → m'.ctl.his slot = m.ctl.his slot) := by
  induction es generalizing m with
  | nil =>
      rw [← Option.some.inj h]
      refine ⟨?_, fun _ _ => rfl⟩
      rintro (⟨e, he, -⟩ | ⟨hm, hm'⟩)
      · exact absurd he List.not_mem_nil
      · exact absurd hm hm'
  | cons e es ih =>
      obtain ⟨m₁, hstep, hrun⟩ := Option.bind_eq_some_iff.mp h
      obtain ⟨hlost, hkept⟩ := ih hrun (hfree.tail hstep)
      rw [(step_ring hstep).1] at hlost hkept
      obtain ⟨hiff, hhis⟩ | ⟨hm, hm₁, hzero⟩ := step_entry hstep hfree.head
      · rw [clear_his m.ctl e hslot] at hhis
        rw [hiff] at hlost hkept
        refine ⟨?_, ?_⟩
        · rintro (⟨e', he', hport⟩ | hended)
          · obtain rfl | he' := List.mem_cons.mp he'
            · rw [if_pos hport] at hhis
              exact run_cleared hslot hrun (hfree.tail hstep) (by rw [hhis])
            · exact hlost (.inl ⟨e', he', hport⟩)
          · exact hlost (.inr hended)
        · intro hports hfailing
          rw [if_neg (hports e List.mem_cons_self)] at hhis
          rw [hkept (fun e' he' => hports e' (List.mem_cons_of_mem e he')) hfailing, hhis]
      · have hm' := run_not_failing hrun (hfree.tail hstep) hm₁
        exact ⟨fun _ => run_cleared hslot hrun (hfree.tail hstep) hzero,
          fun _ hfailing => absurd (hfailing hm) hm'⟩

/-- The entry of a probe right behind `sendto`. -/
theorem step_send {m m' : Machine} {ok : Bool} {now : Timespec}
    (h : m.step accepts (.send ok now) = some m') :
    m'.ctl.his m.ctl.hisptr = ⟨m.ctl.ttl, now⟩ ∧ (Failing m.ctl.hisptr m' ↔ ok = false) := by
  obtain ⟨i, ok', now', -, he, rfl⟩ | ⟨reply, -, he, -⟩ | ⟨i, progress, r, -, he, -⟩ |
    ⟨progress, r, -, he, -⟩ := step_cases accepts h
  · cases he
    cases ok with
    | true =>
        exact ⟨Function.update_self m.ctl.hisptr _ m.ctl.his,
          iff_of_false (not_failing_of_pc fun _ _ => nofun) nofun⟩
    | false =>
        exact ⟨Function.update_self m.ctl.hisptr _ m.ctl.his,
          iff_of_true ⟨rfl, i, -1, rfl⟩ rfl⟩
  · cases he
  · cases he
  · cases he

end Runs

section Messages

/-- A message that is too short for the probe header is matched through its port alone. -/
theorem identify_short {ctl : RunState} {msg : Message} (h : msg.size < probehdrSize) (ttl : ℤ)
    (now : Timespec) :
    identify ctl msg = ⟨ttl, some now, false⟩ ↔ historyEntry ctl msg.port = some ⟨ttl, now⟩ := by
  unfold identify
  dsimp only
  rw [if_neg h.ne]
  cases historyEntry ctl msg.port with
  | none => exact ⟨nofun, nofun⟩
  | some entry =>
      obtain ⟨hops, sendtime⟩ := entry
      simp

/-- Ports outside the ring are matched with nothing. -/
theorem historyEntry_outside {ctl : RunState} {port : ℤ}
    (h : port < ctl.basePort ∨ ctl.basePort + 63 < port) : historyEntry ctl port = none := by
  refine historyEntry_eq_none fun slot hslot hlt => ?_
  unfold slotOf at hslot
  unfold hisArraySize at hlt
  omega

end Messages

/-- An error without the probe header is matched with its probe exactly when the slot is
not the last one, its port does not wrap around, the time to live is not zero, and the
entry is still there: no message for the port came before, and if `sendto` failed then
`recverr` is still at work on that. Other ports are never matched. -/
theorem error_matched_iff (accepts : ℤ → Bool) (o : Options) (target : Target) (ctl : RunState)
    (h : setup o target = some ctl) (es₀ : List Event) (m : Machine)
    (hreach : (Machine.start accepts ctl).run accepts es₀ = some m) (ok : Bool) (now : Timespec)
    (m₁ : Machine) (hsend : m.step accepts (.send ok now) = some m₁) (es : List Event)
    (m₂ : Machine) (hrun : m₁.run accepts es = some m₂)
    (hfree : NotReused accepts m.ctl.hisptr m₁ es) (msg : Message)
    (hport : msg.port = m.ctl.probePort) (hshort : msg.size < probehdrSize) :
    (identify m₂.ctl msg = ⟨m.ctl.ttl, some now, false⟩ ∧
        ∀ port, port < o.basePort ∨ o.basePort + 63 < port → historyEntry m₂.ctl port = none) ↔
      m.ctl.hisptr < 63 ∧ o.basePort + m.ctl.hisptr ≤ 65535 ∧ m.ctl.ttl ≠ 0 ∧
        (∀ e ∈ es, Event.port e ≠ some msg.port) ∧ (ok = true ∨ Failing m.ctl.hisptr m₂) := by
  have hstart : (Machine.start accepts ctl).ctl = { ctl with ttl := 1 } := enterHop_ctl accepts _
  obtain ⟨-, hoption, hzero⟩ := setup_options h
  obtain ⟨hbase, hptr⟩ := run_ring hreach (by rw [hstart]; exact hzero.trans_lt (by decide))
  obtain ⟨hbase₁, hnext⟩ := step_ring hsend
  obtain ⟨hbase₂, -⟩ := run_ring hrun (by unfold hisArraySize at *; omega)
  rw [hstart] at hbase
  dsimp only at hbase
  rw [hoption] at hbase
  have hout : ∀ port, port < o.basePort ∨ o.basePort + 63 < port →
      historyEntry m₂.ctl port = none := by
    intro port hport
    rw [← hbase, ← hbase₁, ← hbase₂] at hport
    exact historyEntry_outside hport
  rw [and_iff_left hout, identify_short hshort]
  have h₀ := o.basePort_nonneg
  have h₁ := o.basePort_le
  have hslot : slotOf m₂.ctl msg.port = u16 (o.basePort + m.ctl.hisptr) - o.basePort := by
    unfold slotOf
    rw [hbase₂, hbase₁, hport, RunState.probePort, hbase]
    omega
  unfold u16 at hslot
  unfold hisArraySize at hptr
  obtain ⟨hentry, hfail⟩ := step_send hsend
  constructor
  · intro hfound
    obtain ⟨slot, heq, hlt, hne, hhis⟩ := historyEntry_found hfound
    unfold hisArraySize at hlt
    have hsame : slot = m.ctl.hisptr ∧ o.basePort + m.ctl.hisptr ≤ 65535 := by omega
    obtain ⟨rfl, hle⟩ := hsame
    have hlost := (run_entry (show m.ctl.hisptr < hisArraySize - 1 from hlt) hrun hfree).1
    rw [hhis, hbase₁, hbase] at hlost
    refine ⟨hlt, hle, hne, ?_, ?_⟩
    · intro e he hport'
      refine hne (hlost (.inl ⟨e, he, ?_⟩))
      rw [hport', hport, RunState.probePort, hbase, u16_of_mem (by omega) (by omega)]
    · by_contra hnot
      obtain ⟨hok, hnf⟩ := not_or.mp hnot
      exact hne (hlost (.inr ⟨hfail.mpr (Bool.eq_false_iff.mpr hok), hnf⟩))
  · rintro ⟨hlt, hle, hne, hports, hok⟩
    have hkept := (run_entry (show m.ctl.hisptr < hisArraySize - 1 from hlt) hrun hfree).2
    have hport' : msg.port = o.basePort + m.ctl.hisptr := by
      rw [hport, RunState.probePort, hbase, u16_of_mem (by omega) (by omega)]
    rw [hbase₁, hbase, ← hport', hentry] at hkept
    have hhis := hkept hports fun hf => hok.resolve_left (by rw [hfail.mp hf]; exact nofun)
    rw [← hhis]
    exact historyEntry_eq_some (by omega) hlt (by rw [hhis]; exact hne)

/-- An error about port `port` with nothing of the payload in it. -/
def shortError (port : ℤ) : Message :=
  { port := port, size := 0, cmsgs := [.recverr ⟨.ehostunreach, .icmp, 11, 0, 0⟩] }

/-- The state that `main` starts to probe an IPv4 target with. -/
def initial : RunState := { mtu := 65535, overhead := 28 }

theorem notReused_recv (accepts : ℤ → Bool) (slot : ℕ) (m : Machine) (reply : Bool) :
    NotReused accepts slot m [.recv reply] := by
  intro es₁ es₂ ok now m' hes
  cases es₁ with
  | nil => cases hes
  | cons e es₁ =>
      have hnil := (List.cons.inj hes).2
      cases es₁ with
      | nil => cases hnil
      | cons e' es₁ => cases hnil

theorem error_matched_first :
    setup {} .inet = some initial ∧
      ∃ m m₁ m₂, (Machine.start (fun _ => true) initial).run (fun _ => true) [] = some m ∧
        m.step (fun _ => true) (.send true ⟨7, 0⟩) = some m₁ ∧
        m₁.run (fun _ => true) [.recv false] = some m₂ ∧
        ((identify m₂.ctl (shortError 44444) = ⟨m.ctl.ttl, some ⟨7, 0⟩, false⟩ ∧
            ∀ port, port < 44444 ∨ (44444 : ℤ) + 63 < port → historyEntry m₂.ctl port = none) ↔
          m.ctl.hisptr < 63 ∧ (44444 : ℤ) + m.ctl.hisptr ≤ 65535 ∧ m.ctl.ttl ≠ 0 ∧
            (∀ e ∈ [Event.recv false], Event.port e ≠ some 44444) ∧
            (true = true ∨ Failing m.ctl.hisptr m₂)) :=
  ⟨rfl, _, _, _, rfl, rfl, rfl, error_matched_iff (fun _ => true) {} .inet initial rfl [] _ rfl
    true ⟨7, 0⟩ _ rfl [.recv false] _ rfl (notReused_recv _ _ _ false) (shortError 44444) rfl
    (by decide)⟩

/-- A probe that nothing comes back for. -/
def silentProbe : List Event := [.send true ⟨0, 0⟩, .recv false, .recvmsg .again]

/-- The sixty-fourth probe goes to port 44507, and the error about it is matched with
nothing. -/
theorem last_slot_unmatched :
    setup {} .inet = some initial ∧
      ∃ m m₁ m₂, (Machine.start (fun _ => true) initial).run (fun _ => true)
          (List.replicate 63 silentProbe).flatten = some m ∧
        m.ctl.hisptr = 63 ∧ m.ctl.probePort = 44507 ∧
        m.step (fun _ => true) (.send true ⟨7, 0⟩) = some m₁ ∧
        m₁.run (fun _ => true) [.recv false] = some m₂ ∧
        NotReused (fun _ => true) 63 m₁ [.recv false] ∧
        identify m₂.ctl (shortError 44507) ≠ ⟨m.ctl.ttl, some ⟨7, 0⟩, false⟩ := by
  have hrun : ((Machine.start (fun _ => true) initial).run (fun _ => true)
      (List.replicate 63 silentProbe).flatten).map
        (fun m => (m.ctl.hisptr, m.ctl.basePort, m.pc)) = some (63, 44444, .probe 0) := by
    decide +kernel
  obtain ⟨⟨ctl, pc, tries, oldMtu, log⟩, hm, hproj⟩ := Option.map_eq_some_iff.mp hrun
  obtain ⟨hptr, hbase, rfl⟩ : ctl.hisptr = 63 ∧ ctl.basePort = 44444 ∧ pc = .probe 0 :=
    ⟨congrArg (·.1) hproj, congrArg (·.2.1) hproj, congrArg (·.2.2) hproj⟩
  refine ⟨rfl, _, _, _, hm, hptr, ?_, rfl, rfl, notReused_recv _ _ _ false, ?_⟩
  · dsimp only [RunState.probePort]
    rw [hptr, hbase]
    rfl
  · rw [ne_eq, identify_short (by decide), historyEntry_eq_none]
    · exact nofun
    · intro slot hslot hlt
      dsimp only [slotOf, shortError, RunState.advance, RunState.record] at hslot
      unfold hisArraySize at hlt
      rw [hbase] at hslot
      omega

end Iputils.TracepathSlots
