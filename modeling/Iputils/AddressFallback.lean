import Mathlib.Data.List.Basic
import Mathlib.Data.Int.Notation
import Mathlib.Tactic.SplitIfs

/-!
# IPv6 source selection over a list of addresses

`main` calls `ping6_run` for one entry of the `getaddrinfo` list after another,
always on the same state. The part of `ping6_run` modelled here goes up to the
`connect` of the probe socket that selects the source address. The kernel is a
function from the connected address to the result, one for each entry. `firsthop`
is only filled in while it is unspecified, so what the first attempt leaves there
is what all later ones connect to.
-/
set_option autoImplicit false

namespace Iputils.AddressFallback

abbrev In6Addr := BitVec 128

def afInet6 : ℕ := 10
def ipprotoIcmpv6 : ℕ := 58

/-- Ports are kept in host order. -/
structure SockaddrIn6 where
  sin6Family : ℕ := 0
  sin6Port : ℕ := 0
  sin6Flowinfo : ℕ := 0
  sin6Addr : In6Addr := 0
  sin6ScopeId : ℕ := 0
deriving Repr, DecidableEq

/-- `IN6_IS_ADDR_LINKLOCAL`, the prefix `fe80::/10`. -/
def isLinklocal (a : In6Addr) : Prop := a >>> 118 = 0x3fa

/-- `IN6_IS_ADDR_MC_LINKLOCAL`, multicast of scope 2. -/
def isMcLinklocal (a : In6Addr) : Prop := a >>> 120 = 0xff ∧ (a >>> 112) &&& 0xf = 2

/-- The two tests as the source combines them. -/
def Linklocal (a : In6Addr) : Prop := isLinklocal a ∨ isMcLinklocal a

instance (a : In6Addr) : Decidable (isLinklocal a) := inferInstanceAs (Decidable (_ = _))
instance (a : In6Addr) : Decidable (isMcLinklocal a) := inferInstanceAs (Decidable (_ ∧ _))
instance (a : In6Addr) : Decidable (Linklocal a) := inferInstanceAs (Decidable (_ ∨ _))

/-- The subject of a node information query: none yet, an option's, or a pointer
to the address in `whereto6`. -/
inductive NiSubject
  | unset | option | whereto6
deriving Repr, DecidableEq

/-- `device` is the index that `if_name2index` finds; `scopeId` is the static
variable of `ping6_run`. -/
structure Rts where
  device : Option ℕ := none
  source6 : SockaddrIn6 := { sin6Family := afInet6 }
  whereto6 : SockaddrIn6 := {}
  firsthop : SockaddrIn6 := {}
  scopeId : ℕ := 0
  hostname : List Char := []
  optNumeric : Bool := false
  niQuery : ℤ := -1
  niSubject : NiSubject := .unset
deriving DecidableEq

inductive Exit
  | usage | scopeDiscrepancy | connect
deriving Repr, DecidableEq

inductive ConnectResult
  | unreachable
  | failed
  | connected (source : SockaddrIn6)
deriving Repr, DecidableEq

/-- `retry` is the return value -1; behind `pinging` the socket is set up and the
main loop runs with the source address given. -/
inductive Outcome
  | retry
  | exit (e : Exit)
  | pinging (source : SockaddrIn6)
deriving Repr, DecidableEq

/-- What one call leaves: the state, the address that the probe socket was
connected to, if it came to that, and the outcome. -/
structure Attempt where
  rts : Rts
  peer : Option SockaddrIn6
  outcome : Outcome
deriving DecidableEq

def setSubject (s : Rts) : Rts :=
  if s.niQuery ≥ 0 ∧ s.niSubject = .unset then { s with niSubject := .whereto6 } else s

/-- The assignments in front of the first hop. -/
def setTarget (s : Rts) (target : List Char) (ai : SockaddrIn6) : Rts :=
  { s with
    whereto6 := { ai with sin6Port := ipprotoIcmpv6 }
    optNumeric := if ':' ∈ target then true else s.optNumeric }

/-- The first hop is the target, unless an earlier call has chosen one. -/
def setFirsthop (s : Rts) : Except Exit Rts :=
  if s.firsthop.sin6Addr = 0 then
    let firsthop := { s.firsthop with
      sin6Addr := s.whereto6.sin6Addr, sin6ScopeId := s.whereto6.sin6ScopeId }
    if firsthop.sin6ScopeId ≠ 0 ∧ s.scopeId ≠ 0 ∧ firsthop.sin6ScopeId ≠ s.scopeId then
      .error .scopeDiscrepancy
    else
      .ok { s with
        firsthop := firsthop
        scopeId := if s.scopeId = 0 then firsthop.sin6ScopeId else s.scopeId }
  else .ok s

/-- The first hop as it is handed to `connect`. -/
def aim (device : Option ℕ) (h : SockaddrIn6) : SockaddrIn6 :=
  let h :=
    match device with
    | some iface => if Linklocal h.sin6Addr then { h with sin6ScopeId := iface } else h
    | none => h
  let h := if Linklocal h.sin6Addr then h else { h with sin6Family := afInet6 }
  { h with sin6Port := 1025 }

/-- The scope of a source address given by option. -/
def strictSource (s : Rts) : SockaddrIn6 :=
  match s.device with
  | some iface =>
      if Linklocal s.source6.sin6Addr then { s.source6 with sin6ScopeId := iface } else s.source6
  | none => s.source6

def selectSource (s : Rts) (aiNext : Bool) (connect : SockaddrIn6 → ConnectResult) : Attempt :=
  if s.source6.sin6Addr = 0 then
    let s := { s with firsthop := aim s.device s.firsthop }
    match connect s.firsthop with
    | .unreachable => ⟨s, some s.firsthop, if aiNext then .retry else .exit .connect⟩
    | .failed => ⟨s, some s.firsthop, .exit .connect⟩
    | .connected source =>
        let source := { source with sin6Port := 0 }
        ⟨{ s with source6 := source }, some s.firsthop, .pinging source⟩
  else ⟨{ s with source6 := strictSource s }, none, .pinging (strictSource s)⟩

def ping6Run (s : Rts) (argc : ℕ) (target : List Char) (ai : SockaddrIn6) (aiNext : Bool)
    (connect : SockaddrIn6 → ConnectResult) : Attempt :=
  let s := setSubject s
  if argc > 1 then ⟨s, none, .exit .usage⟩
  else
    match setFirsthop (setTarget s target ai) with
    | .error e => ⟨setTarget s target ai, none, .exit e⟩
    | .ok s => selectSource { s with hostname := target } aiNext connect

/-- An entry of the list, with what the kernel does when it is its turn. -/
structure Entry where
  addr : SockaddrIn6
  connect : SockaddrIn6 → ConnectResult

/-- The loop of `main` over entries of the family `AF_INET6`. -/
def attempts (s : Rts) (target : List Char) : List Entry → List Attempt
  | [] => []
  | e :: es =>
      let a := ping6Run s 1 target e.addr (es ≠ []) e.connect
      match a.outcome with
      | .retry => a :: attempts a.rts target es
      | _ => [a]

/-- The state in which `main` makes its first call without a source address. -/
structure Fresh (s : Rts) : Prop where
  firsthop : s.firsthop = {}
  scopeId : s.scopeId = 0
  source : s.source6.sin6Addr = 0

/-- The attempt connects to the entry's own address and scope, and it ends as a run
that starts with this entry does. -/
def Faithful (s₀ : Rts) (target : List Char) (e : Entry) (aiNext : Bool) (a : Attempt) : Prop :=
  let direct := ping6Run s₀ 1 target e.addr aiNext e.connect
  (∃ p, a.peer = some p ∧ p.sin6Addr = e.addr.sin6Addr ∧ p.sin6ScopeId = e.addr.sin6ScopeId) ∧
    a.peer = direct.peer ∧ a.outcome = direct.outcome

/-- The entries that an attempt is made for. -/
def tried (s : Rts) (target : List Char) (es : List Entry) : List Entry :=
  es.take (attempts s target es).length

/-- An option naming the device replaces the scope of link-local addresses. -/
def ScopeKept (device : Option ℕ) (e : SockaddrIn6) : Prop :=
  ∀ iface ∈ device, Linklocal e.sin6Addr → e.sin6ScopeId = iface

/-- `c` may be tried after `b` has been: it is the same address, or `b` left no
address behind, only its scope and the family. -/
def Compatible (device : Option ℕ) (b c : SockaddrIn6) : Prop :=
  if b.sin6Addr = 0 then
    ¬ Linklocal c.sin6Addr ∧
      ¬ (b.sin6ScopeId ≠ 0 ∧ c.sin6ScopeId ≠ 0 ∧ c.sin6ScopeId ≠ b.sin6ScopeId)
  else
    c.sin6Addr = b.sin6Addr ∧
      (c.sin6ScopeId = b.sin6ScopeId ∨ device ≠ none ∧ Linklocal c.sin6Addr)

/-- What a run that starts with this entry connects to. -/
def directPeer (device : Option ℕ) (e : SockaddrIn6) : SockaddrIn6 :=
  aim device { sin6Addr := e.sin6Addr, sin6ScopeId := e.sin6ScopeId }

def outcomeOf (aiNext : Bool) : ConnectResult → Outcome
  | .unreachable => if aiNext then .retry else .exit .connect
  | .failed => .exit .connect
  | .connected source => .pinging { source with sin6Port := 0 }

theorem linklocal_zero : ¬ Linklocal 0 := by decide

section Aim
variable (device : Option ℕ) (h : SockaddrIn6)

@[simp] theorem aim_addr : (aim device h).sin6Addr = h.sin6Addr := by
  cases device with
  | none => simp only [aim]; split_ifs <;> rfl
  | some iface => simp only [aim]; split_ifs <;> rfl

@[simp] theorem aim_port : (aim device h).sin6Port = 1025 := by
  cases device with
  | none => simp only [aim]
  | some iface => simp only [aim]

@[simp] theorem aim_flowinfo : (aim device h).sin6Flowinfo = h.sin6Flowinfo := by
  cases device with
  | none => simp only [aim]; split_ifs <;> rfl
  | some iface => simp only [aim]; split_ifs <;> rfl

theorem aim_family :
    (aim device h).sin6Family = if Linklocal h.sin6Addr then h.sin6Family else afInet6 := by
  cases device with
  | none => simp only [aim]; split_ifs <;> rfl
  | some iface => simp only [aim]; split_ifs <;> rfl

theorem aim_scopeId :
    (aim device h).sin6ScopeId =
      if Linklocal h.sin6Addr then device.getD h.sin6ScopeId else h.sin6ScopeId := by
  cases device with
  | none => simp only [aim]; split_ifs <;> rfl
  | some iface => simp only [aim]; split_ifs <;> rfl

end Aim

theorem sockaddr_ext {p q : SockaddrIn6} (h₁ : p.sin6Family = q.sin6Family)
    (h₂ : p.sin6Port = q.sin6Port) (h₃ : p.sin6Flowinfo = q.sin6Flowinfo)
    (h₄ : p.sin6Addr = q.sin6Addr) (h₅ : p.sin6ScopeId = q.sin6ScopeId) : p = q := by
  cases p
  cases q
  simp_all

/-- A first hop without flow information is aimed like the entry exactly when it has
the entry's address, a scope that makes no difference, and for a link-local address
no family. -/
theorem aim_eq_directPeer {device : Option ℕ} {h e : SockaddrIn6} (hf : h.sin6Flowinfo = 0) :
    aim device h = directPeer device e ↔
      h.sin6Addr = e.sin6Addr ∧
      (e.sin6ScopeId = h.sin6ScopeId ∨ device ≠ none ∧ Linklocal e.sin6Addr) ∧
      (Linklocal e.sin6Addr → h.sin6Family = 0) := by
  unfold directPeer
  constructor
  · intro heq
    have haddr := congrArg SockaddrIn6.sin6Addr heq
    have hscope := congrArg SockaddrIn6.sin6ScopeId heq
    have hfamily := congrArg SockaddrIn6.sin6Family heq
    simp only [aim_addr] at haddr
    simp only [aim_scopeId, haddr] at hscope
    simp only [aim_family, haddr] at hfamily
    refine ⟨haddr, ?_, ?_⟩
    · by_cases hl : Linklocal e.sin6Addr
      · cases device with
        | none => exact Or.inl (by simpa [hl] using hscope.symm)
        | some iface => exact Or.inr ⟨by simp, hl⟩
      · exact Or.inl (by simpa [hl] using hscope.symm)
    · intro hl
      simpa [hl] using hfamily
  · intro hx
    obtain ⟨haddr, hscope, hfamily⟩ := hx
    refine sockaddr_ext ?_ (by simp) (by simp [hf]) (by simp [haddr]) ?_
    · rw [aim_family, aim_family, haddr]
      split_ifs with hl
      · exact hfamily hl
      · rfl
    · rw [aim_scopeId, aim_scopeId, haddr]
      split_ifs with hl
      · cases device with
        | none =>
            have hs : e.sin6ScopeId = h.sin6ScopeId := by simpa using hscope
            exact hs.symm
        | some iface => rfl
      · rcases hscope with hs | hs
        · exact hs.symm
        · exact absurd hs.2 hl

theorem directPeer_scopeId {device : Option ℕ} {e : SockaddrIn6} :
    (directPeer device e).sin6ScopeId = e.sin6ScopeId ↔ ScopeKept device e := by
  unfold directPeer ScopeKept
  rw [aim_scopeId]
  cases device with
  | none => simp
  | some iface =>
      by_cases hl : Linklocal e.sin6Addr
      · simp [hl, eq_comm]
      · simp [hl]

/-- Aiming twice changes nothing. -/
theorem aim_directPeer (device : Option ℕ) (e : SockaddrIn6) :
    aim device (directPeer device e) = directPeer device e := by
  rw [aim_eq_directPeer (by simp [directPeer])]
  refine ⟨by simp [directPeer], ?_, ?_⟩
  · by_cases hl : Linklocal e.sin6Addr
    · cases device with
      | none => exact Or.inl (by simp [directPeer, aim_scopeId])
      | some iface => exact Or.inr ⟨by simp, hl⟩
    · exact Or.inl (by simp [directPeer, aim_scopeId, hl])
  · intro hl
    simp [directPeer, aim_family, hl]

section Run
variable {s : Rts} (target : List Char) (ai : SockaddrIn6) (aiNext : Bool)
  (connect : SockaddrIn6 → ConnectResult)

/-- The first hop that an attempt starts from. -/
def hop (s : Rts) (ai : SockaddrIn6) : SockaddrIn6 :=
  if s.firsthop.sin6Addr = 0 then
    { s.firsthop with sin6Addr := ai.sin6Addr, sin6ScopeId := ai.sin6ScopeId }
  else s.firsthop

/-- The scopes of two nodes disagree. -/
def Conflict (s : Rts) (ai : SockaddrIn6) : Prop :=
  s.firsthop.sin6Addr = 0 ∧ ai.sin6ScopeId ≠ 0 ∧ s.scopeId ≠ 0 ∧ ai.sin6ScopeId ≠ s.scopeId

/-- The part of the state that later attempts depend on. -/
structure Carry where
  device : Option ℕ
  source : In6Addr
  firsthop : SockaddrIn6
  scopeId : ℕ

def carry (s : Rts) : Carry := ⟨s.device, s.source6.sin6Addr, s.firsthop, s.scopeId⟩

theorem carry_setTarget : carry (setTarget (setSubject s) target ai) = carry s := by
  unfold setSubject
  split_ifs <;> rfl

/-- What `setFirsthop` reads of the state it is called in. -/
theorem setTarget_fields : let t := setTarget (setSubject s) target ai
    t.whereto6 = { ai with sin6Port := ipprotoIcmpv6 } ∧ t.device = s.device ∧
      t.source6.sin6Addr = s.source6.sin6Addr ∧ t.firsthop = s.firsthop ∧
      t.scopeId = s.scopeId := by
  have hk := @carry_setTarget s target ai
  simp only [carry, Carry.mk.injEq] at hk
  exact ⟨rfl, hk⟩

theorem setFirsthop_target (hc : ¬ Conflict s ai) :
    ∃ t, setFirsthop (setTarget (setSubject s) target ai) = .ok t ∧
      carry t = { carry s with
        firsthop := hop s ai
        scopeId := if s.firsthop.sin6Addr = 0 ∧ s.scopeId = 0 then ai.sin6ScopeId
          else s.scopeId } := by
  obtain ⟨hw, h₁, h₂, h₃, h₄⟩ := @setTarget_fields s target ai
  unfold setFirsthop
  rw [h₃, h₄, hw]
  by_cases hz : s.firsthop.sin6Addr = 0
  · rw [if_pos hz]
    dsimp only
    rw [if_neg (fun hx => hc ⟨hz, hx⟩)]
    refine ⟨_, rfl, ?_⟩
    simp [carry, hop, hz, h₁, h₂]
  · rw [if_neg hz]
    refine ⟨_, rfl, ?_⟩
    simp only [carry, hop, hz, if_false, false_and, h₁, h₂, h₃, h₄]

theorem ping6Run_conflict (hc : Conflict s ai) :
    (ping6Run s 1 target ai aiNext connect).peer = none := by
  obtain ⟨hw, -, -, h₃, h₄⟩ := @setTarget_fields s target ai
  have he : setFirsthop (setTarget (setSubject s) target ai) = .error .scopeDiscrepancy := by
    unfold setFirsthop
    rw [h₃, h₄, hw, if_pos hc.1]
    dsimp only
    rw [if_pos hc.2]
  simp [ping6Run, he]

/-- Without a conflict the probe socket is connected to the first hop. -/
theorem ping6Run_eq (hs : s.source6.sin6Addr = 0) (hc : ¬ Conflict s ai) :
    let a := ping6Run s 1 target ai aiNext connect
    a.peer = some (aim s.device (hop s ai)) ∧
    a.outcome = outcomeOf aiNext (connect (aim s.device (hop s ai))) ∧
    (a.outcome = .retry → carry a.rts =
      { carry s with
        firsthop := aim s.device (hop s ai)
        scopeId := if s.firsthop.sin6Addr = 0 ∧ s.scopeId = 0 then ai.sin6ScopeId
          else s.scopeId }) := by
  intro a
  obtain ⟨t, ht, hk⟩ := setFirsthop_target target ai hc
  have ha : a = selectSource { t with hostname := target } aiNext connect := by
    simp [a, ping6Run, ht]
  simp only [carry, Carry.mk.injEq] at hk
  obtain ⟨h₁, h₂, h₃, h₄⟩ := hk
  rw [hs] at h₂
  rw [ha, selectSource, if_pos h₂]
  dsimp only
  rw [h₁, h₃]
  cases hr : connect (aim s.device (hop s ai)) with
  | unreachable => exact ⟨rfl, rfl, fun _ => by simp [carry, h₂, h₄, hs]⟩
  | failed => exact ⟨rfl, rfl, fun h => by simp at h⟩
  | connected source => exact ⟨rfl, rfl, fun h => by simp at h⟩

end Run

theorem not_conflict_fresh {s₀ : Rts} (h : Fresh s₀) (ai : SockaddrIn6) : ¬ Conflict s₀ ai :=
  fun hc => hc.2.2.1 h.scopeId

theorem hop_fresh {s₀ : Rts} (h : Fresh s₀) (ai : SockaddrIn6) :
    hop s₀ ai = { sin6Addr := ai.sin6Addr, sin6ScopeId := ai.sin6ScopeId } := by
  simp [hop, h.firsthop]

/-- The peer decides whether an attempt is faithful. -/
theorem faithful_iff_peer {s₀ s : Rts} (h : Fresh s₀) (hs : s.source6.sin6Addr = 0)
    (target : List Char) (e : Entry) (aiNext : Bool) :
    Faithful s₀ target e aiNext (ping6Run s 1 target e.addr aiNext e.connect) ↔
      ScopeKept s₀.device e.addr ∧ ¬ Conflict s e.addr ∧
        aim s.device (hop s e.addr) = directPeer s₀.device e.addr := by
  obtain ⟨hp₀, ho₀, -⟩ := ping6Run_eq target e.addr aiNext e.connect h.source
    (not_conflict_fresh h e.addr)
  rw [hop_fresh h, ← directPeer] at hp₀ ho₀
  unfold Faithful
  dsimp only
  rw [hp₀, ho₀]
  by_cases hc : Conflict s e.addr
  · rw [ping6Run_conflict target e.addr aiNext e.connect hc]
    simp [hc]
  · obtain ⟨hp, ho, -⟩ := ping6Run_eq target e.addr aiNext e.connect hs hc
    rw [hp, ho]
    constructor
    · intro hx
      obtain ⟨⟨p, hpp, -, hscope⟩, hpeer, -⟩ := hx
      have hpeer := Option.some.inj hpeer
      rw [hpeer] at hpp
      obtain rfl := Option.some.inj hpp
      exact ⟨directPeer_scopeId.mp hscope, hc, hpeer⟩
    · intro hx
      obtain ⟨hkept, -, hpeer⟩ := hx
      rw [hpeer]
      exact ⟨⟨_, rfl, by simp [directPeer], directPeer_scopeId.mpr hkept⟩, rfl, rfl⟩

/-- What earlier attempts on the entries `before` have left in the state: either
nothing but a family and a scope, or the address of one of them. -/
inductive Left (device : Option ℕ) (before : List SockaddrIn6) (s : Rts) : Prop
  | unset (hz : s.firsthop.sin6Addr = 0) (hflow : s.firsthop.sin6Flowinfo = 0)
      (hnone : ∀ b ∈ before, b.sin6Addr = 0)
      (hfamily : s.firsthop.sin6Family = if before = [] then 0 else afInet6)
      (hscope : ∀ b ∈ before, b.sin6ScopeId ≠ 0 → b.sin6ScopeId = s.scopeId)
      (hfrom : s.scopeId ≠ 0 → ∃ b ∈ before, b.sin6ScopeId = s.scopeId)
  | chosen (h : SockaddrIn6) (hmem : h ∈ before) (hne : h.sin6Addr ≠ 0)
      (hhop : s.firsthop = directPeer device h)
      (hsame : ∀ b ∈ before, ∀ c, Compatible device h c → Compatible device b c)

structure Known (s₀ : Rts) (before : List SockaddrIn6) (s : Rts) : Prop where
  device : s.device = s₀.device
  source : s.source6.sin6Addr = 0
  left : Left s₀.device before s

theorem known_fresh {s₀ : Rts} (h : Fresh s₀) : Known s₀ [] s₀ := by
  refine ⟨rfl, h.source, .unset ?_ ?_ ?_ ?_ ?_ ?_⟩
  · rw [h.firsthop]
  · rw [h.firsthop]
  · simp
  · simp [h.firsthop]
  · simp
  · intro hne
    exact absurd h.scopeId hne

theorem compatible_zero {device : Option ℕ} {b c : SockaddrIn6} (h : b.sin6Addr = 0) :
    Compatible device b c ↔ ¬ Linklocal c.sin6Addr ∧
      ¬ (b.sin6ScopeId ≠ 0 ∧ c.sin6ScopeId ≠ 0 ∧ c.sin6ScopeId ≠ b.sin6ScopeId) := by
  unfold Compatible
  rw [if_pos h]

theorem compatible_ne {device : Option ℕ} {b c : SockaddrIn6} (h : b.sin6Addr ≠ 0) :
    Compatible device b c ↔ c.sin6Addr = b.sin6Addr ∧
      (c.sin6ScopeId = b.sin6ScopeId ∨ device ≠ none ∧ Linklocal c.sin6Addr) := by
  unfold Compatible
  rw [if_neg h]

/-- With an address left behind, only an equal one is aimed at. -/
theorem directPeer_eq_iff {device : Option ℕ} {h e : SockaddrIn6} (hne : h.sin6Addr ≠ 0) :
    directPeer device h = directPeer device e ↔ Compatible device h e := by
  have haim := @aim_eq_directPeer device
    { sin6Addr := h.sin6Addr, sin6ScopeId := h.sin6ScopeId } e rfl
  rw [← directPeer] at haim
  rw [haim, compatible_ne hne]
  constructor
  · intro hx
    exact ⟨hx.1.symm, hx.2.1⟩
  · intro hx
    exact ⟨hx.1.symm, hx.2, fun _ => rfl⟩

/-- After `before`, an entry is handled as if it came first exactly when it is
compatible with all of them. -/
theorem undisturbed_iff {s₀ s : Rts} {before : List SockaddrIn6} (hk : Known s₀ before s)
    (e : SockaddrIn6) :
    (¬ Conflict s e ∧ aim s.device (hop s e) = directPeer s₀.device e) ↔
      ∀ b ∈ before, Compatible s₀.device b e := by
  rw [hk.device]
  cases hk.left with
  | unset hz hflow hnone hfamily hscope hfrom =>
      have hhop : hop s e =
          { s.firsthop with sin6Addr := e.sin6Addr, sin6ScopeId := e.sin6ScopeId } := if_pos hz
      rw [hhop, aim_eq_directPeer (by exact hflow)]
      constructor
      · intro hx b hb
        obtain ⟨hc, -, -, hfam⟩ := hx
        rw [compatible_zero (hnone b hb)]
        refine ⟨fun hl => ?_, fun hd => ?_⟩
        · have h₁ := hfam hl
          rw [hfamily, if_neg (List.ne_nil_of_mem hb)] at h₁
          exact absurd h₁ (by decide)
        · have h₁ := hscope b hb hd.1
          refine hc ⟨hz, hd.2.1, ?_, ?_⟩
          · rw [← h₁]
            exact hd.1
          · rw [← h₁]
            exact hd.2.2
      · intro hall
        refine ⟨fun hc => ?_, rfl, Or.inl rfl, fun hl => ?_⟩
        · obtain ⟨b, hb, he⟩ := hfrom hc.2.2.1
          have hcomp := (compatible_zero (hnone b hb)).mp (hall b hb)
          refine hcomp.2 ⟨?_, hc.2.1, ?_⟩
          · rw [he]
            exact hc.2.2.1
          · rw [he]
            exact hc.2.2.2
        · change s.firsthop.sin6Family = 0
          rw [hfamily]
          split_ifs with hnil
          · rfl
          · obtain ⟨b, hb⟩ := List.exists_mem_of_ne_nil before hnil
            exact absurd hl ((compatible_zero (hnone b hb)).mp (hall b hb)).1
  | chosen h hmem hne hhop hsame =>
      have hset : s.firsthop.sin6Addr ≠ 0 := by
        rw [hhop]
        simpa [directPeer] using hne
      have hh : hop s e = directPeer s₀.device h := by
        rw [hop, if_neg hset, hhop]
      rw [hh, aim_directPeer, directPeer_eq_iff hne]
      constructor
      · intro hx b hb
        exact hsame b hb e hx.2
      · intro hall
        exact ⟨fun hc => hset hc.1, hall h hmem⟩

/-- Compatibility passes through an entry with a specified address. -/
theorem compatible_trans {device : Option ℕ} {b e c : SockaddrIn6} (hz : e.sin6Addr ≠ 0)
    (hbe : Compatible device b e) (hec : Compatible device e c) : Compatible device b c := by
  rw [compatible_ne hz] at hec
  by_cases hb0 : b.sin6Addr = 0
  · -- the first specified address after unspecified ones is not link-local
    obtain ⟨hl, hs⟩ := (compatible_zero hb0).mp hbe
    have hl' : ¬ Linklocal c.sin6Addr := by rwa [hec.1]
    have hscope : c.sin6ScopeId = e.sin6ScopeId := hec.2.resolve_right fun hx => hl' hx.2
    rw [compatible_zero hb0, hscope]
    exact ⟨hl', hs⟩
  · obtain ⟨haddr, hscope⟩ := (compatible_ne hb0).mp hbe
    rw [compatible_ne hb0]
    refine ⟨hec.1.trans haddr, ?_⟩
    rcases hec.2 with hs | hs
    · rcases hscope with hs' | hs'
      · exact Or.inl (hs.trans hs')
      · exact Or.inr ⟨hs'.1, by rw [hec.1]; exact hs'.2⟩
    · exact Or.inr hs

/-- An undisturbed attempt that is given up leaves its own entry behind. -/
theorem known_retry {s₀ s : Rts} {before : List SockaddrIn6} (hk : Known s₀ before s)
    {target : List Char} {e : Entry} {aiNext : Bool}
    (hall : ∀ b ∈ before, Compatible s₀.device b e.addr)
    (hr : (ping6Run s 1 target e.addr aiNext e.connect).outcome = .retry) :
    Known s₀ (e.addr :: before) (ping6Run s 1 target e.addr aiNext e.connect).rts := by
  obtain ⟨hc, hpeer⟩ := (undisturbed_iff hk e.addr).mpr hall
  obtain ⟨-, -, hcarry⟩ := ping6Run_eq target e.addr aiNext e.connect hk.source hc
  have hcarry := hcarry hr
  rw [hpeer] at hcarry
  simp only [carry, Carry.mk.injEq] at hcarry
  obtain ⟨h₁, h₂, h₃, h₄⟩ := hcarry
  refine ⟨h₁.trans hk.device, h₂.trans hk.source, ?_⟩
  by_cases hz : e.addr.sin6Addr = 0
  · cases hk.left with
    | unset hz' hflow hnone hfamily hscope hfrom =>
        refine .unset ?_ ?_ ?_ ?_ ?_ ?_
        · rw [h₃]
          simpa [directPeer] using hz
        · rw [h₃]
          simp [directPeer]
        · intro b hb
          rcases List.mem_cons.mp hb with rfl | hb
          · exact hz
          · exact hnone b hb
        · rw [h₃, if_neg (by simp), directPeer, aim_family]
          exact if_neg (by rw [hz]; exact linklocal_zero)
        · intro b hb hne
          rw [h₄]
          rcases List.mem_cons.mp hb with rfl | hb
          · split_ifs with hs
            · rfl
            · by_contra hd
              exact hc ⟨hz', hne, fun h0 => hs ⟨hz', h0⟩, hd⟩
          · have h₅ := hscope b hb hne
            rw [if_neg (fun hs => hne (h₅.trans hs.2))]
            exact h₅
        · intro hne
          rw [h₄] at hne ⊢
          split_ifs at hne ⊢ with hs
          · exact ⟨e.addr, List.mem_cons_self, rfl⟩
          · obtain ⟨b, hb, he⟩ := hfrom hne
            exact ⟨b, List.mem_cons_of_mem _ hb, he⟩
    | chosen h hmem hne hhop hsame =>
        have hcomp := (compatible_ne hne).mp (hall h hmem)
        exact absurd (hcomp.1.symm.trans hz) hne
  · refine .chosen e.addr List.mem_cons_self hz h₃ ?_
    intro b hb c hcomp
    rcases List.mem_cons.mp hb with rfl | hb
    · exact hcomp
    · exact compatible_trans hz (hall b hb) hcomp

/-- Every attempt of the run is faithful. -/
def AllFaithful (s₀ s : Rts) (target : List Char) : List Entry → Prop
  | [] => True
  | e :: es =>
      let a := ping6Run s 1 target e.addr (es ≠ []) e.connect
      Faithful s₀ target e (es ≠ []) a ∧ (a.outcome = .retry → AllFaithful s₀ a.rts target es)

section Loop
variable {s : Rts} {target : List Char} {e : Entry} {es : List Entry}

theorem attempts_retry (h : (ping6Run s 1 target e.addr (es ≠ []) e.connect).outcome = .retry) :
    attempts s target (e :: es) =
      ping6Run s 1 target e.addr (es ≠ []) e.connect ::
        attempts (ping6Run s 1 target e.addr (es ≠ []) e.connect).rts target es := by
  simp only [attempts, h]

theorem attempts_last (h : (ping6Run s 1 target e.addr (es ≠ []) e.connect).outcome ≠ .retry) :
    attempts s target (e :: es) = [ping6Run s 1 target e.addr (es ≠ []) e.connect] := by
  cases ho : (ping6Run s 1 target e.addr (es ≠ []) e.connect).outcome with
  | retry => exact absurd ho h
  | exit x => simp only [attempts, ho]
  | pinging source => simp only [attempts, ho]

theorem attempts_head :
    (attempts s target (e :: es))[0]? =
      some (ping6Run s 1 target e.addr (es ≠ []) e.connect) := by
  by_cases h : (ping6Run s 1 target e.addr (es ≠ []) e.connect).outcome = .retry
  · rw [attempts_retry h]
    rfl
  · rw [attempts_last h]
    rfl

theorem tried_retry (h : (ping6Run s 1 target e.addr (es ≠ []) e.connect).outcome = .retry) :
    tried s target (e :: es) =
      e :: tried (ping6Run s 1 target e.addr (es ≠ []) e.connect).rts target es := by
  rw [tried, attempts_retry h]
  rfl

theorem tried_last (h : (ping6Run s 1 target e.addr (es ≠ []) e.connect).outcome ≠ .retry) :
    tried s target (e :: es) = [e] := by
  rw [tried, attempts_last h]
  rfl

end Loop

/-- The attempts of a run are faithful one after the other. -/
theorem allFaithful_iff {s₀ s : Rts} {target : List Char} {es : List Entry} :
    AllFaithful s₀ s target es ↔
      ∀ (front : List Entry) (e : Entry) (rest : List Entry) (a : Attempt),
        es = front ++ e :: rest → (attempts s target es)[front.length]? = some a →
        Faithful s₀ target e (rest ≠ []) a := by
  induction es generalizing s with
  | nil => simp [AllFaithful]
  | cons e es ih =>
      simp only [AllFaithful]
      rw [ih]
      constructor
      · intro hx front e' rest a' hsplit hget
        obtain ⟨hfirst, hrest⟩ := hx
        cases front with
        | nil =>
            obtain ⟨rfl, rfl⟩ : e = e' ∧ es = rest := by simpa using hsplit
            rw [List.length_nil, attempts_head] at hget
            obtain rfl := Option.some.inj hget
            exact hfirst
        | cons f front =>
            obtain ⟨rfl, hes⟩ : e = f ∧ es = front ++ e' :: rest := by simpa using hsplit
            by_cases ho : (ping6Run s 1 target e.addr (es ≠ []) e.connect).outcome = .retry
            · refine hrest ho front e' rest a' hes ?_
              rwa [attempts_retry ho, List.length_cons, List.getElem?_cons_succ] at hget
            · rw [attempts_last ho] at hget
              simp at hget
      · intro hx
        refine ⟨hx [] e es _ rfl attempts_head, ?_⟩
        intro ho front e' rest a' hsplit hget
        refine hx (e :: front) e' rest a' (by rw [hsplit]; rfl) ?_
        rwa [attempts_retry ho, List.length_cons, List.getElem?_cons_succ]

/-- In a state that earlier attempts have left, a run is faithful exactly when each
entry tried is compatible with all entries tried before it. -/
theorem allFaithful_known {s₀ s : Rts} (h : Fresh s₀) {before : List SockaddrIn6}
    (hk : Known s₀ before s) (target : List Char) (es : List Entry) :
    AllFaithful s₀ s target es ↔
      (∀ e ∈ tried s target es, ScopeKept s₀.device e.addr ∧
        ∀ b ∈ before, Compatible s₀.device b e.addr) ∧
      (tried s target es).Pairwise fun b c => Compatible s₀.device b.addr c.addr := by
  induction es generalizing s before with
  | nil => simp [AllFaithful, tried]
  | cons e es ih =>
      have hfirst := faithful_iff_peer h hk.source target e (es ≠ [])
      rw [undisturbed_iff hk e.addr] at hfirst
      simp only [AllFaithful]
      rw [hfirst]
      by_cases hr : (ping6Run s 1 target e.addr (es ≠ []) e.connect).outcome = .retry
      · rw [tried_retry hr]
        by_cases hc : ∀ b ∈ before, Compatible s₀.device b e.addr
        · have hrest := ih (known_retry hk hc hr)
          simp only [hr, true_implies, hrest, List.forall_mem_cons, List.pairwise_cons]
          constructor
          · intro hx
            obtain ⟨⟨hkept, -⟩, hall, hpair⟩ := hx
            exact ⟨⟨⟨hkept, hc⟩, fun c hm => ⟨(hall c hm).1, (hall c hm).2.2⟩⟩,
              fun c hm => (hall c hm).2.1, hpair⟩
          · intro hx
            obtain ⟨⟨⟨hkept, -⟩, hall⟩, hone, hpair⟩ := hx
            exact ⟨⟨hkept, hc⟩, fun c hm => ⟨(hall c hm).1, hone c hm, (hall c hm).2⟩, hpair⟩
        · constructor
          · intro hx
            exact absurd hx.1.2 hc
          · intro hx
            exact absurd (hx.1 e List.mem_cons_self).2 hc
      · have hvac : ((ping6Run s 1 target e.addr (es ≠ []) e.connect).outcome = .retry →
            AllFaithful s₀ (ping6Run s 1 target e.addr (es ≠ []) e.connect).rts target es) ↔ True :=
          iff_true_intro fun ho => absurd ho hr
        rw [tried_last hr, hvac, and_true]
        simp

/-- From a fresh state, all attempts connect to their own entries and end as direct
runs do, exactly when the scopes of the entries tried are not replaced by a device
and every later one is compatible with every earlier one. -/
theorem fallback_faithful_iff {s₀ : Rts} (h : Fresh s₀) (target : List Char) (es : List Entry) :
    (∀ (front : List Entry) (e : Entry) (rest : List Entry) (a : Attempt),
      es = front ++ e :: rest → (attempts s₀ target es)[front.length]? = some a →
      Faithful s₀ target e (rest ≠ []) a) ↔
    (∀ e ∈ tried s₀ target es, ScopeKept s₀.device e.addr) ∧
      (tried s₀ target es).Pairwise fun b c => Compatible s₀.device b.addr c.addr := by
  rw [← allFaithful_iff, allFaithful_known h (known_fresh h)]
  simp

/-- `2001:db8::1` and `2001:db8::2`. -/
def firstAddr : SockaddrIn6 :=
  { sin6Family := afInet6, sin6Addr := 0x20010db8000000000000000000000001 }

def secondAddr : SockaddrIn6 :=
  { sin6Family := afInet6, sin6Addr := 0x20010db8000000000000000000000002 }

/-- There is a route to the second address only; its source is `2001:db8::9`. -/
def oneRoute (peer : SockaddrIn6) : ConnectResult :=
  if peer.sin6Addr = secondAddr.sin6Addr then
    .connected { sin6Family := afInet6, sin6Port := 40000,
                 sin6Addr := 0x20010db8000000000000000000000009 }
  else .unreachable

def twoEntries : List Entry := [⟨firstAddr, oneRoute⟩, ⟨secondAddr, oneRoute⟩]

/-- The same address twice; its route appears between the two attempts. -/
def sameTwice : List Entry := [⟨secondAddr, fun _ => .unreachable⟩, ⟨secondAddr, oneRoute⟩]

theorem fallback_faithful_iff_retry :
    (attempts {} [] sameTwice).map Attempt.outcome =
      [.retry, .pinging { sin6Family := afInet6, sin6Addr := 0x20010db8000000000000000000000009 }] ∧
    ∀ (front : List Entry) (e : Entry) (rest : List Entry) (a : Attempt),
      sameTwice = front ++ e :: rest → (attempts {} [] sameTwice)[front.length]? = some a →
      Faithful {} [] e (rest ≠ []) a := by
  have hf : Fresh {} := ⟨rfl, rfl, rfl⟩
  have ht : tried {} [] sameTwice = sameTwice := by
    rw [sameTwice, tried_retry (by decide), tried_last (by decide)]
  refine ⟨by decide, (fallback_faithful_iff hf [] sameTwice).mpr ?_⟩
  rw [ht]
  refine ⟨fun e _ => by simp [ScopeKept], ?_⟩
  have hsame : Compatible none secondAddr secondAddr := by
    rw [Compatible, if_neg (by decide)]
    exact ⟨rfl, Or.inl rfl⟩
  exact List.pairwise_pair.mpr hsame

/-- The second attempt connects to the first address again and ends the program,
though a run that starts with the second address finds a source. -/
theorem second_entry_not_tried :
    (attempts {} [] twoEntries).map Attempt.peer =
      [some (directPeer none firstAddr), some (directPeer none firstAddr)] ∧
    (attempts {} [] twoEntries).map Attempt.outcome = [.retry, .exit .connect] ∧
    (ping6Run {} 1 [] secondAddr false oneRoute).outcome =
      .pinging { sin6Family := afInet6, sin6Addr := 0x20010db8000000000000000000000009 } ∧
    ¬ ∀ (front : List Entry) (e : Entry) (rest : List Entry) (a : Attempt),
      twoEntries = front ++ e :: rest → (attempts {} [] twoEntries)[front.length]? = some a →
      Faithful {} [] e (rest ≠ []) a := by
  have hout : (attempts {} [] twoEntries).map Attempt.outcome = [.retry, .exit .connect] := by
    decide
  refine ⟨by decide, hout, by decide, ?_⟩
  intro hall
  have hget : ((attempts {} [] twoEntries)[1]?).map Attempt.outcome = some (.exit .connect) := by
    rw [← List.getElem?_map, hout]
    rfl
  cases ha : (attempts {} [] twoEntries)[1]? with
  | none =>
      rw [ha] at hget
      cases hget
  | some a =>
      rw [ha] at hget
      have hf := hall [⟨firstAddr, oneRoute⟩] ⟨secondAddr, oneRoute⟩ [] a rfl ha
      have ho := hf.2.2
      rw [Option.some.inj hget] at ho
      exact absurd ho (by decide)

end Iputils.AddressFallback
