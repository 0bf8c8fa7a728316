import Iputils.Tracepath

/-!
# The loop over the hops of tracepath

`main` calls `probe_ttl` up to three times for each time to live. At this level a call
is what it leaves behind: its result and the part of the state that it writes. The
time to live is a `uint8_t`, and the option `-m` reaches up to its largest value.
-/
set_option autoImplicit false

namespace Iputils.TracepathHops
open MachineInt Tracepath

/-- What a call of `probe_ttl` leaves behind. -/
structure Outcome where
  res : ℤ
  his : ℕ → Hhistory
  hisptr : ℕ
  mtu : ℤ
  hopsTo : ℤ
  hopsFrom : ℤ

def Outcome.apply (o : Outcome) (ctl : RunState) : RunState :=
  { ctl with his := o.his, hisptr := o.hisptr, mtu := o.mtu, hopsTo := o.hopsTo,
             hopsFrom := o.hopsFrom }

section Calls
variable (accepts : ℤ → Bool)

/-- `main` from one call of `probe_ttl` to the next. -/
def called (m : Machine) (o : Outcome) : Machine :=
  if m.pc = .probe 0 then Machine.afterProbe accepts { m with ctl := o.apply m.ctl } o.res else m

def calls (m : Machine) (os : List Outcome) : Machine :=
  os.foldl (called accepts) m

end Calls

section Hops

def Action.isNoReply : Action → Bool
  | .noReply _ => true
  | _ => false

/-- The calls of `main` without the lines for the hops that do not answer. -/
def visible (log : List Action) : List Action := log.filter fun a => !Action.isNoReply a

/-- The first `n` values of the time to live. -/
def setTtls (n : ℕ) : List Action := (List.range n).map fun i : ℕ => .setTtl (i + 1)

/-- Every time to live up to `maxHops` once and in order, then the message and the summary. -/
def Finished (mtu maxHops : ℤ) (m : Machine) : Prop :=
  m.pc = .done ∧ visible m.log = setTtls maxHops.toNat ++
    [.tooManyHops mtu, .resume mtu m.ctl.hopsTo m.ctl.hopsFrom]

theorem visible_append (log log' : List Action) :
    visible (log ++ log') = visible log ++ visible log' := List.filter_append log log'

theorem setTtls_succ (n : ℕ) : setTtls (n + 1) = setTtls n ++ [.setTtl (n + 1)] := by
  unfold setTtls
  rw [List.range_succ, List.map_append]
  rfl

/-- A machine at a call of `probe_ttl` for the time to live `ttl`. -/
structure AtHop (mtu maxHops : ℤ) (ttl : ℕ) (m : Machine) : Prop where
  pc : m.pc = .probe 0
  ctl_mtu : m.ctl.mtu = mtu
  ctl_maxHops : m.ctl.maxHops = maxHops
  ctl_ttl : m.ctl.ttl = ttl
  ttl_le : ttl ≤ maxHops
  tries : m.tries < 3
  oldMtu : m.oldMtu = mtu
  log : visible m.log = setTtls ttl

variable {accepts : ℤ → Bool} {mtu maxHops : ℤ}

/-- The head of the loop, behind `ttl` hops. -/
theorem enterHop_spec (hacc : ∀ t, 1 ≤ t → t ≤ 255 → accepts t = true) {m : Machine} {ttl : ℕ}
    (hmtu : m.ctl.mtu = mtu) (hmax : m.ctl.maxHops = maxHops) (hle : ttl ≤ maxHops)
    (hlimit : maxHops ≤ 255) (httl : m.ctl.ttl = ttl + 1) (hlog : visible m.log = setTtls ttl) :
    (AtHop mtu maxHops (ttl + 1) (m.enterHop accepts) ∧ (m.enterHop accepts).tries = 0) ∨
      Finished mtu maxHops (m.enterHop accepts) := by
  unfold Machine.enterHop
  by_cases hnext : m.ctl.ttl ≤ m.ctl.maxHops
  · rw [if_pos hnext, if_pos (hacc _ (by omega) (by omega))]
    refine .inl ⟨⟨rfl, hmtu, hmax, by rw [Nat.cast_succ]; exact httl, by omega, Nat.zero_lt_succ 2,
      hmtu, ?_⟩, rfl⟩
    rw [setTtls_succ, ← hlog, ← httl]
    exact visible_append m.log [.setTtl m.ctl.ttl]
  · rw [if_neg hnext]
    refine .inr ⟨rfl, ?_⟩
    have hlast : maxHops.toNat = ttl := by omega
    rw [hlast, ← hlog, ← hmtu]
    change visible ((m.log ++ [_]) ++ [_]) = _
    rw [visible_append, visible_append, List.append_assoc]
    rfl

/-- An outcome that keeps the loop going. -/
def Steady (mtu : ℤ) (o : Outcome) : Prop := o.res ≠ 0 ∧ o.mtu = mtu

/-- What is left of the loop: three tries for each hop. -/
def remaining (maxHops : ℤ) (m : Machine) : ℕ := 3 * (maxHops - m.ctl.ttl).toNat + (3 - m.tries)

theorem remaining_next {m m' : Machine} {ttl : ℕ} (h : AtHop mtu maxHops ttl m)
    (h' : AtHop mtu maxHops (ttl + 1) m') (htries : m'.tries = 0) :
    remaining maxHops m' < remaining maxHops m := by
  have hrest : (maxHops - (ttl + 1 : ℕ)).toNat + 1 = (maxHops - ttl).toNat := by
    have := h'.ttl_le
    omega
  have := h.tries
  unfold remaining
  rw [h'.ctl_ttl, htries, h.ctl_ttl, ← hrest]
  omega

/-- The increment does not wrap around below the largest bound. -/
theorem nextHop_spec (hacc : ∀ t, 1 ≤ t → t ≤ 255 → accepts t = true) (hlimit : maxHops < 255)
    {m : Machine} {ttl : ℕ} (hmtu : m.ctl.mtu = mtu) (hmax : m.ctl.maxHops = maxHops)
    (hle : ttl ≤ maxHops) (httl : m.ctl.ttl = ttl) (hlog : visible m.log = setTtls ttl) :
    (AtHop mtu maxHops (ttl + 1) (m.nextHop accepts) ∧ (m.nextHop accepts).tries = 0) ∨
      Finished mtu maxHops (m.nextHop accepts) := by
  have hnext : u8 (m.ctl.ttl + 1) = ttl + 1 := by
    rw [httl]
    unfold u8
    omega
  exact enterHop_spec hacc hmtu hmax hle hlimit.le hnext hlog

/-- One call brings the loop nearer to its end. -/
theorem called_spec (hacc : ∀ t, 1 ≤ t → t ≤ 255 → accepts t = true) (hlimit : maxHops < 255)
    {m : Machine} {ttl : ℕ} {o : Outcome} (h : AtHop mtu maxHops ttl m) (ho : Steady mtu o) :
    (∃ ttl', AtHop mtu maxHops ttl' (called accepts m o) ∧
        remaining maxHops (called accepts m o) < remaining maxHops m) ∨
      Finished mtu maxHops (called accepts m o) := by
  have hsame : ¬ (o.apply m.ctl).mtu ≠ m.oldMtu := by
    rw [h.oldMtu]
    exact not_not.mpr ho.2
  unfold called Machine.afterProbe
  rw [if_pos h.pc, if_neg hsame, if_neg ho.1]
  by_cases hpos : o.res > 0
  · rw [if_pos hpos]
    obtain ⟨hat, htries⟩ | hfin := nextHop_spec (m := { m with ctl := o.apply m.ctl })
      hacc hlimit ho.2 h.ctl_maxHops h.ttl_le h.ctl_ttl h.log
    · exact .inl ⟨ttl + 1, hat, remaining_next h hat htries⟩
    · exact .inr hfin
  rw [if_neg hpos]
  by_cases htries : m.tries + 1 < 3
  · rw [if_pos htries]
    refine .inl ⟨ttl, ⟨rfl, ho.2, h.ctl_maxHops, h.ctl_ttl, h.ttl_le, htries, ho.2, h.log⟩, ?_⟩
    unfold remaining Machine.callProbe
    dsimp only [Outcome.apply]
    omega
  · rw [if_neg htries]
    have hlog : visible (m.log ++ [.noReply m.ctl.ttl]) = setTtls ttl := by
      rw [visible_append, h.log]
      exact List.append_nil _
    obtain ⟨hat, htries⟩ | hfin := nextHop_spec
      (m := { m with ctl := o.apply m.ctl, log := m.log ++ [.noReply m.ctl.ttl] })
      hacc hlimit ho.2 h.ctl_maxHops h.ttl_le h.ctl_ttl hlog
    · exact .inl ⟨ttl + 1, hat, remaining_next h hat htries⟩
    · exact .inr hfin

/-- The outcomes of the first `n` calls. -/
def firstCalls (os : ℕ → Outcome) (n : ℕ) : List Outcome := (List.range n).map os

theorem calls_firstCalls_succ (m : Machine) (os : ℕ → Outcome) (n : ℕ) :
    calls accepts m (firstCalls os (n + 1)) =
      calls accepts (called accepts m (os 0)) (firstCalls (fun i => os (i + 1)) n) := by
  unfold firstCalls calls
  rw [List.range_succ_eq_map, List.map_cons, List.map_map]
  rfl

/-- The loop ends from every hop, by induction on what is left of it. -/
theorem finished_of_atHop (hacc : ∀ t, 1 ≤ t → t ≤ 255 → accepts t = true)
    (hlimit : maxHops < 255) {m : Machine} {ttl : ℕ} (h : AtHop mtu maxHops ttl m)
    (os : ℕ → Outcome) (hos : ∀ i, Steady mtu (os i)) :
    ∃ n, Finished mtu maxHops (calls accepts m (firstCalls os n)) := by
  obtain ⟨k, hk⟩ : ∃ k, remaining maxHops m ≤ k := ⟨_, le_rfl⟩
  induction k generalizing m ttl os with
  | zero =>
      have := h.tries
      unfold remaining at hk
      omega
  | succ k ih =>
      obtain ⟨ttl', h', hless⟩ | hfin := called_spec hacc hlimit h (hos 0)
      · obtain ⟨n, hn⟩ := ih h' (fun i => os (i + 1)) (fun i => hos (i + 1)) (by omega)
        exact ⟨n + 1, by rw [calls_firstCalls_succ]; exact hn⟩
      · exact ⟨1, by rw [calls_firstCalls_succ]; exact hfin⟩

/-- A machine that cannot leave the loop over the hops by its bound. -/
structure Endless (mtu : ℤ) (m : Machine) : Prop where
  pc : m.pc ≠ .done
  maxHops : m.ctl.maxHops = maxHopsLimit
  oldMtu : m.pc = .probe 0 → m.oldMtu = mtu

theorem enterHop_endless {m : Machine} (hmtu : m.ctl.mtu = mtu)
    (hmax : m.ctl.maxHops = maxHopsLimit) (httl : m.ctl.ttl ≤ 255) :
    Endless mtu (m.enterHop accepts) := by
  have hle : m.ctl.ttl ≤ m.ctl.maxHops := by
    rw [hmax]
    exact httl
  unfold Machine.enterHop
  rw [if_pos hle]
  split_ifs
  · exact ⟨nofun, hmax, fun _ => hmtu⟩
  · exact ⟨nofun, hmax, nofun⟩

theorem u8_le (x : ℤ) : u8 x ≤ 255 := by
  unfold u8
  omega

theorem called_endless {m : Machine} {o : Outcome} (h : Endless mtu m) (ho : Steady mtu o) :
    Endless mtu (called accepts m o) := by
  unfold called
  split_ifs with hpc
  · have hsame : ¬ (o.apply m.ctl).mtu ≠ m.oldMtu := by
      rw [h.oldMtu hpc]
      exact not_not.mpr ho.2
    unfold Machine.afterProbe
    rw [if_neg hsame, if_neg ho.1]
    split_ifs
    · exact enterHop_endless ho.2 h.maxHops (u8_le _)
    · exact ⟨nofun, h.maxHops, fun _ => ho.2⟩
    · exact enterHop_endless ho.2 h.maxHops (u8_le _)
  · exact h

/-- With the largest bound the counter never passes it, and the loop has no end. -/
theorem calls_endless {m : Machine} (h : Endless mtu m) (os : List Outcome)
    (hos : ∀ o ∈ os, Steady mtu o) : Endless mtu (calls accepts m os) := by
  induction os generalizing m with
  | nil => exact h
  | cons o os ih =>
      exact ih (called_endless h (hos o List.mem_cons_self))
        fun o' ho' => hos o' (List.mem_cons_of_mem o ho')

end Hops

/-- The loop over the hops ends as it should exactly below the largest value that `-m`
accepts: a `uint8_t` is never greater than 255. -/
theorem hop_loop_ends_iff (accepts : ℤ → Bool)
    (hacc : ∀ t, 1 ≤ t → t ≤ 255 → accepts t = true) (o : Options) (target : Target)
    (ctl : RunState) (h : setup o target = some ctl) (os : ℕ → Outcome)
    (hos : ∀ i, (os i).res ≠ 0 ∧ (os i).mtu = ctl.mtu) :
    (∃ n, Finished ctl.mtu o.maxHops
        (calls accepts (Machine.start accepts ctl) (firstCalls os n))) ↔ o.maxHops < 255 := by
  obtain ⟨hmax, -⟩ := setup_options h
  have hlimit : o.maxHops ≤ 255 := o.maxHops_le
  constructor
  · rintro ⟨n, hdone, -⟩
    by_contra hge
    have hstart : Endless ctl.mtu (Machine.start accepts ctl) :=
      enterHop_endless rfl (hmax.trans (le_antisymm hlimit (not_lt.mp hge)))
        (show (1 : ℤ) ≤ 255 by decide)
    have hos' : ∀ o ∈ firstCalls os n, Steady ctl.mtu o := by
      intro o ho
      obtain ⟨i, -, rfl⟩ := List.mem_map.mp ho
      exact hos i
    exact (calls_endless hstart _ hos').pc hdone
  · intro hlt
    have hzero : ((0 : ℕ) : ℤ) ≤ o.maxHops := o.maxHops_nonneg
    obtain ⟨hat, -⟩ | hfin := enterHop_spec hacc
      (m := { ctl := { ctl with ttl := 1 }, pc := .exited }) rfl hmax hzero hlimit rfl rfl
    · exact finished_of_atHop hacc hlt hat os hos
    · exact ⟨0, hfin⟩

/-- A call of `probe_ttl` that gets no answer. -/
def silent (mtu : ℤ) : Outcome := ⟨-1, fun _ => {}, 0, mtu, -1, -1⟩

theorem hop_loop_ends_two :
    setup { maxHops := 2 } .inet = some { maxHops := 2, mtu := 65535, overhead := 28 } ∧
      ((∃ n, Finished 65535 2 (calls (fun t => decide (1 ≤ t ∧ t ≤ 255))
          (Machine.start (fun t => decide (1 ≤ t ∧ t ≤ 255))
            { maxHops := 2, mtu := 65535, overhead := 28 })
          (firstCalls (fun _ => silent 65535) n))) ↔ (2 : ℤ) < 255) :=
  ⟨rfl, hop_loop_ends_iff (fun t => decide (1 ≤ t ∧ t ≤ 255))
    (fun _ h₁ h₂ => decide_eq_true ⟨h₁, h₂⟩) { maxHops := 2 } .inet
    { maxHops := 2, mtu := 65535, overhead := 28 } rfl (fun _ => silent 65535)
    (fun _ => ⟨show (-1 : ℤ) ≠ 0 by decide, rfl⟩)⟩

/-- With `-m 255` and no answer at all the summary is never printed. -/
theorem limit_never_ends :
    setup { maxHops := 255 } (.inet6 false) =
        some { maxHops := 255, mtu := 128000, overhead := 48 } ∧
      ¬ ∃ n, Finished 128000 255 (calls (fun t => decide (-1 ≤ t ∧ t ≤ 255))
        (Machine.start (fun t => decide (-1 ≤ t ∧ t ≤ 255))
          { maxHops := 255, mtu := 128000, overhead := 48 })
        (firstCalls (fun _ => silent 128000) n)) := by
  refine ⟨rfl, ?_⟩
  rintro ⟨n, hdone, -⟩
  have hstart : Endless 128000 (Machine.start (fun t => decide (-1 ≤ t ∧ t ≤ 255))
      { maxHops := 255, mtu := 128000, overhead := 48 }) :=
    enterHop_endless rfl rfl (show (1 : ℤ) ≤ 255 by decide)
  refine (calls_endless hstart (firstCalls (fun _ => silent 128000) n) ?_).pc hdone
  intro o ho
  obtain ⟨i, -, rfl⟩ := List.mem_map.mp ho
  exact ⟨show (-1 : ℤ) ≠ 0 by decide, rfl⟩

end Iputils.TracepathHops
