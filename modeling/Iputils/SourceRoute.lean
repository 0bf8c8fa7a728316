import Iputils.ByteBuffer
import Mathlib.Data.List.TakeDrop

/-!
# The source route of IPv4 over a list of addresses

`ping4_run` from its argument checks to the `IP_OPTIONS` of the socket. The hops
in front of the destination are appended to `route` at the index `nroute`, which
no call resets, and `main` calls the function again on the same state when an
address is unreachable. A write behind the ten slots of `route` or the forty
bytes of `rspace` is an overrun and has no result. Name resolution and the
kernel's answer to `connect` are parameters; the second `connect` for broadcast
addresses belongs to that answer.
-/
set_option autoImplicit false

namespace Iputils.SourceRoute
open ByteBuffer

def nroutes : ℕ := 9
def ipoptNop : UInt8 := 1
def ipoptRr : UInt8 := 7
def ipoptTimestamp : UInt8 := 68
def ipoptLsrr : UInt8 := 131
def ipoptSsrr : UInt8 := 137
def ipoptMinoff : UInt8 := 4
def ipoptTsTsonly : UInt8 := 0
def ipoptTsPrespec : UInt8 := 3

/-- `sizeof(rspace)`. -/
def rspaceSize : ℕ := 3 + 4 * nroutes + 1

/-- `NI_MAXHOST`, the size of `hnamebuf`. -/
def niMaxhost : ℕ := 1025

structure Rts where
  nroute : ℕ := 0
  route : List UInt32 := List.replicate 10 0
  whereto : UInt32 := 0
  source : UInt32 := 0
  hostname : List Char := []
  optNumeric : Bool := false
  optRroute : Bool := false
  optTimestamp : Bool := false
  optSourceroute : Bool := false
  optSoDontroute : Bool := false
  tsType : UInt8 := 0
deriving DecidableEq

inductive Exit
  | usage | lookup | connect | options | overrun
deriving Repr, DecidableEq

/-- An entry of a `getaddrinfo` list. -/
structure AddrInfo where
  addr : UInt32
  canonname : Option (List Char) := none
deriving Repr, DecidableEq

/-- `inet_aton`, and the first entry that `getaddrinfo` gives for a name. -/
structure Resolver where
  inetAton : List Char → Option UInt32
  getaddrinfo : List Char → Option AddrInfo

inductive ConnectResult
  | unreachable
  | failed
  | connected (source : UInt32)
deriving Repr, DecidableEq

/-- The answers to `connect` and to `setsockopt` with `IP_OPTIONS`. -/
structure Kernel where
  connect : UInt32 → ConnectResult
  accepts : List UInt8 → Bool

/-- `retry` is the return value -1; with `pinging` the options have been handed to
the socket, one string for each call of `setsockopt`. -/
inductive Outcome
  | retry
  | exit (e : Exit)
  | pinging (options : List (List UInt8))
deriving Repr, DecidableEq

def checkArgs (s : Rts) (argc : ℕ) : Except Exit Rts :=
  if argc > 1 then
    if s.optRroute then .error .usage
    else if s.optTimestamp then
      if s.tsType ≠ ipoptTsPrespec then .error .usage
      else if argc > 5 then .error .usage
      else .ok s
    else if argc > 10 then .error .usage
    else .ok { s with optSourceroute := true }
  else .ok s

/-- `rts->route[rts->nroute++] = address`. -/
def pushRoute (s : Rts) (address : UInt32) : Except Exit Rts :=
  if s.nroute < 10 then
    .ok { s with route := s.route.set s.nroute address, nroute := s.nroute + 1 }
  else .error .overrun

/-- What `hnamebuf` holds of the canonical name, or of the target in its place. -/
def hnamebuf (target : List Char) (result : AddrInfo) : List Char :=
  (result.canonname.getD target).take (niMaxhost - 1)

/-- Address and name of one argument; only the last one may be the entry `ai`. -/
def lookupArg (names : Resolver) (ai : AddrInfo) (target : List Char) (last : Bool) :
    Except Exit (UInt32 × List Char) :=
  match names.inetAton target with
  | some address => .ok (address, target)
  | none =>
      if last then .ok (ai.addr, hnamebuf target ai)
      else
        match names.getaddrinfo target with
        | some result => .ok (result.addr, hnamebuf target result)
        | none => .error .lookup

/-- The loop over the arguments. -/
def fillRoute (names : Resolver) (ai : AddrInfo) (s : Rts) : List (List Char) → Except Exit Rts
  | [] => .ok s
  | target :: argv => do
      let (address, name) ← lookupArg names ai target (argv = [])
      let s := { s with
        whereto := address
        hostname := name
        optNumeric := if argv = [] ∧ (names.inetAton target).isSome then true else s.optNumeric }
      let s ← if argv ≠ [] then pushRoute s address else pure s
      fillRoute names ai s argv

/-- The bytes of a `uint32_t` in memory. -/
def le32 (a : UInt32) : List UInt8 :=
  [a.toUInt8, (a >>> 8).toUInt8, (a >>> 16).toUInt8, (a >>> 24).toUInt8]

/-- A write to `rspace`. -/
def put (rspace : List UInt8) (off : ℕ) (bytes : List UInt8) : Except Exit (List UInt8) :=
  if off + bytes.length ≤ rspace.length then .ok (store rspace off bytes) else .error .overrun

/-- The loop that writes the hops, `stride` bytes apart. -/
def putHops (stride : ℕ) : List UInt8 → ℕ → List UInt32 → Except Exit (List UInt8)
  | rspace, _, [] => .ok rspace
  | rspace, i, a :: as => do
      let rspace ← put rspace (4 + i * stride) (le32 a)
      putHops stride rspace (i + 1) as

/-- The string of `len` bytes that `setsockopt` reads from `rspace`. -/
def optionString (rspace : List UInt8) (len : ℕ) : Except Exit (List UInt8) :=
  if len ≤ rspace.length then .ok (rspace.take len) else .error .overrun

/-- `setsockopt` with an option that may not be refused. -/
def setOptions (accepts : List UInt8 → Bool) (rspace : List UInt8) (len : ℕ) :
    Except Exit (List (List UInt8)) := do
  let o ← optionString rspace len
  if accepts o then pure [o] else .error .options

def blank : List UInt8 := List.replicate rspaceSize 0

def hops (s : Rts) : List UInt32 := s.route.take s.nroute

def recordRoute (accepts : List UInt8 → Bool) : Except Exit (List (List UInt8)) := do
  let rspace ← put blank 0 [ipoptNop, ipoptRr, UInt8.ofNat (rspaceSize - 1), ipoptMinoff]
  setOptions accepts rspace rspaceSize

/-- The bytes of the timestamp option; a flag that is refused is replaced by 2. -/
def timestampSpace (s : Rts) : Except Exit (List UInt8) := do
  let rspace ← put blank 0
    [ipoptTimestamp, if s.tsType = ipoptTsTsonly then 40 else 36, 5, s.tsType]
  if s.tsType = ipoptTsPrespec then do
    let rspace ← put rspace 1 [UInt8.ofNat (4 + s.nroute * 8)]
    putHops 8 rspace 0 (hops s)
  else pure rspace

def timestampOption (accepts : List UInt8 → Bool) (s : Rts) :
    Except Exit (List (List UInt8)) := do
  let rspace ← timestampSpace s
  let len := (rspace.getD 1 0).toNat
  let o ← optionString rspace len
  if accepts o then pure [o]
  else do
    let rspace ← put rspace 3 [2]
    let os ← setOptions accepts rspace len
    pure (o :: os)

def sourceRoute (accepts : List UInt8 → Bool) (s : Rts) : Except Exit (List (List UInt8)) := do
  let rspace ← put blank 0
    [ipoptNop, if s.optSoDontroute then ipoptSsrr else ipoptLsrr, UInt8.ofNat (3 + s.nroute * 4),
     ipoptMinoff]
  let rspace ← putHops 4 rspace 0 (hops s)
  setOptions accepts rspace (4 + s.nroute * 4)

def optional (set : Bool) (option : Except Exit (List (List UInt8))) :
    Except Exit (List (List UInt8)) :=
  if set then option else .ok []

def ipOptions (accepts : List UInt8 → Bool) (s : Rts) : Except Exit (List (List UInt8)) := do
  let rr ← optional s.optRroute (recordRoute accepts)
  let ts ← optional s.optTimestamp (timestampOption accepts s)
  let sr ← optional s.optSourceroute (sourceRoute accepts s)
  pure (rr ++ ts ++ sr)

/-- What one call leaves: the state and the outcome. -/
structure Attempt where
  rts : Rts
  outcome : Outcome
deriving DecidableEq

def finishRun (kernel : Kernel) (s : Rts) : Attempt :=
  let s := { s with whereto := if s.whereto = 0 then s.source else s.whereto }
  match ipOptions kernel.accepts s with
  | .error e => ⟨s, .exit e⟩
  | .ok options => ⟨s, .pinging options⟩

/-- The address that selects the source: the first hop, if there is one. -/
def probeTarget (s : Rts) : UInt32 := if s.nroute ≠ 0 then s.route.getD 0 0 else s.whereto

def selectSource (kernel : Kernel) (aiNext : Bool) (s : Rts) : Attempt :=
  if s.source = 0 then
    match kernel.connect (probeTarget s) with
    | .unreachable => ⟨s, if aiNext then .retry else .exit .connect⟩
    | .failed => ⟨s, .exit .connect⟩
    | .connected source => finishRun kernel { s with source := source }
  else finishRun kernel s

def ping4Run (names : Resolver) (kernel : Kernel) (s : Rts) (argv : List (List Char))
    (ai : AddrInfo) (aiNext : Bool) : Attempt :=
  match checkArgs s argv.length with
  | .error e => ⟨s, .exit e⟩
  | .ok s =>
      match fillRoute names ai s argv with
      | .error e => ⟨s, .exit e⟩
      | .ok s => selectSource kernel aiNext s

/-- An entry of the list that `main` walks, with what the kernel does when it is its
turn. Entries of the other family leave the IPv4 fields alone and either let the
loop go on or end it. -/
inductive Entry
  | inet (ai : AddrInfo) (kernel : Kernel)
  | other (goesOn : Bool)

/-- One call of `ping4_run` in the loop, with its arguments. -/
structure Trial where
  ai : AddrInfo
  kernel : Kernel
  aiNext : Bool
  result : Attempt

/-- The loop of `main`. -/
def attempts (names : Resolver) (argv : List (List Char)) (s : Rts) : List Entry → List Trial
  | [] => []
  | .other goesOn :: es => if goesOn then attempts names argv s es else []
  | .inet ai kernel :: es =>
      let a := ping4Run names kernel s argv ai (es ≠ [])
      match a.outcome with
      | .retry => ⟨ai, kernel, es ≠ [], a⟩ :: attempts names argv a.rts es
      | _ => [⟨ai, kernel, es ≠ [], a⟩]

/-- The addresses of the hops in front of the destination. -/
def hopAddr (names : Resolver) (target : List Char) : Option UInt32 :=
  names.inetAton target <|> (names.getaddrinfo target).map AddrInfo.addr

/-- The state has each hop once, nothing was written or read out of bounds, and the
outcome with its options is that of a first attempt. -/
structure Clean (names : Resolver) (via : List (List Char)) (destination : List Char) (s₀ : Rts)
    (t : Trial) : Prop where
  route : ∀ hs, via.mapM (hopAddr names) = some hs →
    t.result.rts.nroute = hs.length ∧ hops t.result.rts = hs
  inBounds : t.result.outcome ≠ .exit .overrun
  options : t.result.outcome =
    (ping4Run names t.kernel s₀ (via ++ [destination]) t.ai t.aiNext).outcome
  fits : ∀ os, t.result.outcome = .pinging os → ∀ o ∈ os, o.length ≤ rspaceSize

/-- The first entry that `ping4_run` is called for, and what follows it. -/
def firstInet : List Entry → Option (Kernel × List Entry)
  | [] => none
  | .other goesOn :: es => if goesOn then firstInet es else none
  | .inet _ kernel :: es => some (kernel, es)

/-- The first hop is unreachable at the first entry, and another IPv4 entry follows. -/
def FallsBack (s₀ : Rts) (hs : List UInt32) (es : List Entry) : Prop :=
  s₀.source = 0 ∧ ∃ kernel es', firstInet es = some (kernel, es') ∧
    kernel.connect (hs.getD 0 0) = .unreachable ∧ (firstInet es').isSome

section Fill
variable (names : Resolver) (ai : AddrInfo) (destination : List Char)

theorem lookupArg_last (target : List Char) :
    ∃ r, lookupArg names ai target true = .ok r := by
  unfold lookupArg
  cases names.inetAton target with
  | none => exact ⟨_, rfl⟩
  | some address => exact ⟨_, rfl⟩

theorem lookupArg_hop {target : List Char} {a : UInt32} (h : hopAddr names target = some a) :
    ∃ name, lookupArg names ai target false = .ok (a, name) := by
  unfold hopAddr at h
  unfold lookupArg
  cases hi : names.inetAton target with
  | some address =>
      rw [hi] at h
      exact ⟨target, by simpa using h⟩
  | none =>
      rw [hi] at h
      cases hg : names.getaddrinfo target with
      | none => simp [hg] at h
      | some result =>
          rw [hg] at h
          exact ⟨hnamebuf target result, by simpa using h⟩

theorem lookupArg_unknown {target : List Char} (h : hopAddr names target = none) :
    lookupArg names ai target false = .error .lookup := by
  unfold hopAddr at h
  unfold lookupArg
  cases hi : names.inetAton target with
  | some address => simp [hi] at h
  | none =>
      cases hg : names.getaddrinfo target with
      | none => rfl
      | some result => simp [hi, hg] at h

/-- The fields that the loop over the arguments does not write. -/
structure SameOptions (s s' : Rts) : Prop where
  source : s'.source = s.source
  optRroute : s'.optRroute = s.optRroute
  optTimestamp : s'.optTimestamp = s.optTimestamp
  optSourceroute : s'.optSourceroute = s.optSourceroute
  tsType : s'.tsType = s.tsType
  routeLength : s'.route.length = s.route.length

theorem SameOptions.trans {s s' s'' : Rts} (h : SameOptions s s') (h' : SameOptions s' s'') :
    SameOptions s s'' :=
  ⟨h'.1.trans h.1, h'.2.trans h.2, h'.3.trans h.3, h'.4.trans h.4, h'.5.trans h.5, h'.6.trans h.6⟩

/-- One hop that is known is appended, if there is room for it. -/
theorem fillRoute_hop {s : Rts} {target : List Char} {argv : List (List Char)} {a : UInt32}
    (hv : argv ≠ []) (ha : hopAddr names target = some a) (hr : s.route.length = 10) :
    ∃ s', SameOptions s s' ∧ s'.nroute = s.nroute + 1 ∧
      (s.nroute < 10 → hops s' = hops s ++ [a]) ∧
      fillRoute names ai s (target :: argv) =
        if s.nroute < 10 then fillRoute names ai s' argv else .error .overrun := by
  obtain ⟨name, hname⟩ := lookupArg_hop names ai ha
  refine ⟨{ s with
      whereto := a, hostname := name
      optNumeric := if argv = [] ∧ (names.inetAton target).isSome then true else s.optNumeric
      route := s.route.set s.nroute a, nroute := s.nroute + 1 }, ?_, rfl, ?_, ?_⟩
  · exact ⟨rfl, rfl, rfl, rfl, rfl, by simp⟩
  · intro hn
    simp [hops, List.take_add_one, List.take_set_of_le, hr, hn]
  · have hd : decide (argv = []) = false := by simpa using hv
    rw [fillRoute, hd, hname]
    simp only [bind, Except.bind, pushRoute, if_pos hv]
    split_ifs <;> rfl

/-- The last argument only sets the destination. -/
theorem fillRoute_destination :
    ∃ r n, ∀ s' : Rts, fillRoute names ai s' [destination] =
      .ok { s' with
        whereto := r, hostname := n
        optNumeric := if (names.inetAton destination).isSome then true else s'.optNumeric } := by
  obtain ⟨r, hr⟩ := lookupArg_last names ai destination
  refine ⟨r.1, r.2, fun s' => ?_⟩
  simp [fillRoute, hr, bind, Except.bind, pure, Except.pure]

/-- Hops that are known, with room for all of them. -/
theorem fillRoute_hops {s : Rts} {via : List (List Char)} {hs : List UInt32}
    (hv : via.mapM (hopAddr names) = some hs) (hn : s.nroute + via.length ≤ 10)
    (hr : s.route.length = 10) :
    ∃ s', fillRoute names ai s (via ++ [destination]) = .ok s' ∧
      SameOptions s s' ∧ s'.nroute = s.nroute + hs.length ∧ hops s' = hops s ++ hs := by
  induction via generalizing s hs with
  | nil =>
      obtain ⟨r, n, h⟩ := fillRoute_destination names ai destination
      simp only [List.mapM_nil, pure, Option.some.injEq] at hv
      subst hv
      exact ⟨_, h s, ⟨rfl, rfl, rfl, rfl, rfl, rfl⟩, rfl, by simp [hops]⟩
  | cons target via ih =>
      simp only [List.mapM_cons, bind, Option.bind_eq_some_iff, pure, Option.some.injEq] at hv
      obtain ⟨a, ha, hs', hvia, rfl⟩ := hv
      simp only [List.length_cons] at hn
      obtain ⟨s₁, hsame, hn₁, hh₁, hf⟩ :=
        fillRoute_hop names ai (by simp : via ++ [destination] ≠ []) ha hr
      have hlt : s.nroute < 10 := by omega
      obtain ⟨s₂, hf₂, hsame₂, hn₂, hh₂⟩ := ih hvia (by omega) (hsame.routeLength.trans hr)
      refine ⟨s₂, ?_, hsame.trans hsame₂, ?_, ?_⟩
      · rw [List.cons_append, hf, if_pos hlt, hf₂]
      · rw [hn₂, hn₁, List.length_cons]
        omega
      · rw [hh₂, hh₁ hlt, List.append_assoc, List.singleton_append]

/-- A hop that is not known ends the call. -/
theorem fillRoute_unknown {s : Rts} {via : List (List Char)}
    (hv : via.mapM (hopAddr names) = none) (hn : s.nroute + via.length ≤ 10)
    (hr : s.route.length = 10) :
    fillRoute names ai s (via ++ [destination]) = .error .lookup := by
  induction via generalizing s with
  | nil => simp [pure] at hv
  | cons target via ih =>
      simp only [List.length_cons] at hn
      cases ha : hopAddr names target with
      | none =>
          have hd : decide (via ++ [destination] = []) = false := by simp
          rw [List.cons_append, fillRoute, hd, lookupArg_unknown names ai ha]
          rfl
      | some a =>
          have hvia : via.mapM (hopAddr names) = none := by
            cases hm : via.mapM (hopAddr names) with
            | none => rfl
            | some hs => simp [List.mapM_cons, ha, hm, bind, pure] at hv
          obtain ⟨s₁, hsame, hn₁, -, hf⟩ :=
            fillRoute_hop names ai (by simp : via ++ [destination] ≠ []) ha hr
          rw [List.cons_append, hf, if_pos (by omega)]
          exact ih hvia (by omega) (hsame.routeLength.trans hr)

/-- Known hops on any state: the count grows by their number, or the table is left. -/
theorem fillRoute_again {s : Rts} {via : List (List Char)} {hs : List UInt32}
    (hv : via.mapM (hopAddr names) = some hs) (hr : s.route.length = 10) :
    fillRoute names ai s (via ++ [destination]) = .error .overrun ∨
      ∃ s', fillRoute names ai s (via ++ [destination]) = .ok s' ∧
        s'.nroute = s.nroute + hs.length := by
  induction via generalizing s hs with
  | nil =>
      obtain ⟨r, n, h⟩ := fillRoute_destination names ai destination
      simp only [List.mapM_nil, pure, Option.some.injEq] at hv
      subst hv
      exact Or.inr ⟨_, h s, rfl⟩
  | cons target via ih =>
      simp only [List.mapM_cons, bind, Option.bind_eq_some_iff, pure, Option.some.injEq] at hv
      obtain ⟨a, ha, hs', hvia, rfl⟩ := hv
      obtain ⟨s₁, hsame, hn₁, -, hf⟩ :=
        fillRoute_hop names ai (by simp : via ++ [destination] ≠ []) ha hr
      rw [List.cons_append, hf]
      split_ifs with hlt
      · rcases ih hvia (hsame.routeLength.trans hr) with h | ⟨s₂, hf₂, hn₂⟩
        · exact Or.inl h
        · refine Or.inr ⟨s₂, hf₂, ?_⟩
          rw [hn₂, hn₁, List.length_cons]
          omega
      · exact Or.inl rfl

end Fill

section Space

/-- A write that fits keeps the size and what lies in front of it. -/
theorem put_fits {rspace bytes : List UInt8} {off : ℕ} (h : off + bytes.length ≤ rspace.length) :
    ∃ r, put rspace off bytes = .ok r ∧ r.length = rspace.length ∧
      ∀ i < off, r.getD i 0 = rspace.getD i 0 := by
  refine ⟨store rspace off bytes, by rw [put, if_pos h], ?_, ?_⟩
  · simp only [store, List.length_append, List.length_take, List.length_drop]
    omega
  · intro i hi
    have hlt : i < (rspace.take off).length := by
      rw [List.length_take]
      omega
    rw [store, List.append_assoc, List.getD_eq_getElem?_getD, List.getElem?_append_left hlt,
      List.getElem?_take_of_lt hi, List.getD_eq_getElem?_getD]

theorem putHops_fits {stride : ℕ} (hst : 4 ≤ stride) {rspace : List UInt8} {i : ℕ}
    {as : List UInt32} (h : as = [] ∨ 4 + (i + as.length) * stride ≤ rspace.length) :
    ∃ r, putHops stride rspace i as = .ok r ∧ r.length = rspace.length ∧
      ∀ j < 4, r.getD j 0 = rspace.getD j 0 := by
  induction as generalizing rspace i with
  | nil => exact ⟨rspace, rfl, rfl, fun _ _ => rfl⟩
  | cons a as ih =>
      have hle : 4 + (i + (as.length + 1)) * stride ≤ rspace.length := by simpa using h
      have hmul : (i + (as.length + 1)) * stride = i * stride + (as.length + 1) * stride :=
        Nat.add_mul _ _ _
      have hsucc : (as.length + 1) * stride = as.length * stride + stride := Nat.succ_mul _ _
      obtain ⟨r₁, hp, hl, hg⟩ :=
        @put_fits rspace (le32 a) (4 + i * stride) (show 4 + i * stride + 4 ≤ _ by omega)
      have hnext : as = [] ∨ 4 + (i + 1 + as.length) * stride ≤ r₁.length := by
        right
        rw [hl, Nat.add_assoc, Nat.add_comm 1]
        exact hle
      obtain ⟨r₂, hp₂, hl₂, hg₂⟩ := ih hnext
      refine ⟨r₂, ?_, hl₂.trans hl, fun j hj => (hg₂ j hj).trans (hg j (by omega))⟩
      rw [putHops, hp]
      exact hp₂

/-- No access behind `rspace`, and no string longer than it. -/
def InSpace : Except Exit (List (List UInt8)) → Prop
  | .error e => e ≠ .overrun
  | .ok os => ∀ o ∈ os, o.length ≤ rspaceSize

theorem optionString_fits {rspace : List UInt8} {len : ℕ} (h : len ≤ rspace.length) :
    optionString rspace len = .ok (rspace.take len) := by
  rw [optionString, if_pos h]

theorem setOptions_inSpace (accepts : List UInt8 → Bool) {rspace : List UInt8} {len : ℕ}
    (hr : rspace.length = rspaceSize) (h : len ≤ rspaceSize) :
    InSpace (setOptions accepts rspace len) := by
  rw [setOptions, optionString_fits (by omega)]
  simp only [bind, Except.bind]
  split_ifs
  · intro o ho
    obtain rfl := List.mem_singleton.mp ho
    simp only [List.length_take]
    omega
  · simp [InSpace]

theorem InSpace.append {x y : Except Exit (List (List UInt8))} (hx : InSpace x) (hy : InSpace y) :
    InSpace (do
      let a ← x
      let b ← y
      pure (a ++ b)) := by
  cases x with
  | error e => exact hx
  | ok a =>
      cases y with
      | error e => exact hy
      | ok b =>
          intro o ho
          rcases List.mem_append.mp ho with h | h
          · exact hx o h
          · exact hy o h

theorem recordRoute_inSpace (accepts : List UInt8 → Bool) : InSpace (recordRoute accepts) := by
  obtain ⟨r, hp, hl, -⟩ := @put_fits blank
    [ipoptNop, ipoptRr, UInt8.ofNat (rspaceSize - 1), ipoptMinoff] 0 (by decide : 4 ≤ 40)
  rw [recordRoute, hp]
  exact setOptions_inSpace accepts hl (Nat.le_refl _)

theorem sourceRoute_inSpace (accepts : List UInt8 → Bool) {s : Rts} (hn : s.nroute ≤ 9) :
    InSpace (sourceRoute accepts s) := by
  have hlen : (hops s).length ≤ 9 := by
    rw [hops, List.length_take]
    omega
  obtain ⟨r₁, hp₁, hl₁, -⟩ := @put_fits blank
    [ipoptNop, if s.optSoDontroute then ipoptSsrr else ipoptLsrr, UInt8.ofNat (3 + s.nroute * 4),
     ipoptMinoff] 0 (by decide : 4 ≤ 40)
  have hsize : r₁.length = 40 := hl₁
  obtain ⟨r₂, hp₂, hl₂, -⟩ := @putHops_fits 4 (Nat.le_refl 4) r₁ 0 (hops s) (by omega)
  rw [sourceRoute, hp₁]
  simp only [bind, Except.bind, hp₂]
  refine setOptions_inSpace accepts (hl₂.trans hl₁) ?_
  unfold rspaceSize nroutes
  omega

/-- The length byte of the timestamp option lies within the space. -/
theorem timestampSpace_fits {s : Rts} (hn : s.tsType = ipoptTsPrespec → s.nroute ≤ 4) :
    ∃ r, timestampSpace s = .ok r ∧ r.length = rspaceSize ∧ (r.getD 1 0).toNat ≤ rspaceSize := by
  have hb : ∀ b : UInt8, store blank 0
      [ipoptTimestamp, b, 5, s.tsType] = ipoptTimestamp :: b :: 5 :: s.tsType ::
        List.replicate 36 0 := fun b => rfl
  have hp : ∀ b : UInt8, put blank 0 [ipoptTimestamp, b, 5, s.tsType] =
      .ok (ipoptTimestamp :: b :: 5 :: s.tsType :: List.replicate 36 0) := by
    intro b
    rw [put, if_pos (by simp [blank, rspaceSize, nroutes]), hb]
  rw [timestampSpace, hp]
  simp only [bind, Except.bind]
  by_cases hts : s.tsType = ipoptTsPrespec
  · have hn := hn hts
    have hlen : (hops s).length ≤ 4 := by
      rw [hops, List.length_take]
      omega
    rw [if_pos hts]
    obtain ⟨r₁, hr₁, hl₁⟩ : ∃ r₁ : List UInt8, put (ipoptTimestamp ::
        (if s.tsType = ipoptTsTsonly then 40 else 36) :: 5 :: s.tsType :: List.replicate 36 0) 1
        [UInt8.ofNat (4 + s.nroute * 8)] = .ok r₁ ∧
        r₁ = ipoptTimestamp :: UInt8.ofNat (4 + s.nroute * 8) :: 5 :: s.tsType ::
          List.replicate 36 0 := by
      refine ⟨_, ?_, rfl⟩
      rw [put, if_pos (by simp)]
      rfl
    have hsize : r₁.length = 40 := by rw [hl₁]; rfl
    obtain ⟨r₂, hp₂, hl₂, hg₂⟩ := @putHops_fits 8 (by decide) r₁ 0 (hops s) (by omega)
    refine ⟨r₂, by rw [hr₁]; exact hp₂, hl₂.trans hsize, ?_⟩
    rw [hg₂ 1 (by decide), hl₁]
    simp only [List.getD_cons_succ, List.getD_cons_zero, UInt8.toNat_ofNat', Nat.reducePow]
    unfold rspaceSize nroutes
    omega
  · rw [if_neg hts]
    refine ⟨_, rfl, rfl, ?_⟩
    simp only [List.getD_cons_succ, List.getD_cons_zero]
    split_ifs <;> decide

theorem timestampOption_inSpace (accepts : List UInt8 → Bool) {s : Rts}
    (hn : s.tsType = ipoptTsPrespec → s.nroute ≤ 4) : InSpace (timestampOption accepts s) := by
  obtain ⟨r, hr, hl, hlen⟩ := timestampSpace_fits hn
  rw [timestampOption, hr]
  simp only [bind, Except.bind]
  rw [optionString_fits (by omega)]
  have hfirst : (r.take (r.getD 1 0).toNat).length ≤ rspaceSize := by
    rw [List.length_take]
    omega
  dsimp only
  split_ifs
  · intro o ho
    obtain rfl := List.mem_singleton.mp ho
    exact hfirst
  · obtain ⟨r₂, hp₂, hl₂, -⟩ := @put_fits r [2] 3 (by rw [hl]; decide)
    rw [hp₂]
    have hset := setOptions_inSpace accepts (hl₂.trans hl) hlen
    dsimp only
    cases hos : setOptions accepts r₂ (r.getD 1 0).toNat with
    | error e =>
        rw [hos] at hset
        exact hset
    | ok os =>
        rw [hos] at hset
        intro o ho
        rcases List.mem_cons.mp ho with rfl | h
        · exact hfirst
        · exact hset o h

theorem optional_inSpace {set : Bool} {option : Except Exit (List (List UInt8))}
    (h : set = true → InSpace option) : InSpace (optional set option) := by
  unfold optional
  split_ifs with hs
  · exact h hs
  · exact fun o ho => by simp at ho

/-- The bounds that the argument checks establish for a first attempt. -/
structure RouteFits (s : Rts) : Prop where
  route : s.nroute ≤ 9
  prespec : s.optTimestamp = true → s.tsType = ipoptTsPrespec → s.nroute ≤ 4

theorem ipOptions_inSpace (accepts : List UInt8 → Bool) {s : Rts} (h : RouteFits s) :
    InSpace (ipOptions accepts s) := by
  have hrr : InSpace (optional s.optRroute (recordRoute accepts)) :=
    optional_inSpace fun _ => recordRoute_inSpace accepts
  have hts : InSpace (optional s.optTimestamp (timestampOption accepts s)) :=
    optional_inSpace fun ht => timestampOption_inSpace accepts (h.prespec ht)
  have hsr : InSpace (optional s.optSourceroute (sourceRoute accepts s)) :=
    optional_inSpace fun _ => sourceRoute_inSpace accepts h.route
  have hall := (hrr.append hts).append hsr
  simp only [bind_assoc, pure_bind] at hall
  exact hall

end Space

/-- The arguments pass the checks. -/
def Accepted (s : Rts) (argc : ℕ) : Prop := ∃ s', checkArgs s argc = .ok s'

theorem Accepted.congr {s t : Rts} {argc : ℕ} (h : Accepted s argc)
    (h₁ : t.optRroute = s.optRroute) (h₂ : t.optTimestamp = s.optTimestamp)
    (h₃ : t.tsType = s.tsType) : Accepted t argc := by
  obtain ⟨s', hs⟩ := h
  unfold Accepted
  unfold checkArgs at hs ⊢
  rw [h₁, h₂, h₃]
  split_ifs at hs ⊢ <;> exact ⟨_, rfl⟩

/-- What the checks leave: the state with the source route switched on or not, and
bounds on the number of hops. -/
theorem checkArgs_spec {s : Rts} {n : ℕ} (h : Accepted s (n + 1)) :
    ∃ b, checkArgs s (n + 1) = .ok { s with optSourceroute := b } ∧ n ≤ 9 ∧
      (s.optTimestamp = true → n ≤ 4) := by
  obtain ⟨s', hs⟩ := h
  unfold checkArgs at hs ⊢
  split_ifs at hs ⊢
  · exact ⟨s.optSourceroute, rfl, by omega, fun _ => by omega⟩
  · refine ⟨true, rfl, by omega, fun ht => ?_⟩
    contradiction
  · exact ⟨s.optSourceroute, rfl, by omega, fun _ => by omega⟩

section Select
variable (kernel : Kernel) (aiNext : Bool)

theorem finishRun_spec (s : Rts) :
    (finishRun kernel s).rts.nroute = s.nroute ∧ hops (finishRun kernel s).rts = hops s ∧
      (finishRun kernel s).outcome ≠ .retry := by
  unfold finishRun
  dsimp only
  split
  · exact ⟨rfl, rfl, by simp⟩
  · exact ⟨rfl, rfl, by simp⟩

/-- The ways through the source selection. -/
theorem selectSource_cases (s : Rts) :
    (∃ source, (s.source ≠ 0 ∨ kernel.connect (probeTarget s) ≠ .unreachable) ∧
      selectSource kernel aiNext s = finishRun kernel { s with source := source }) ∨
    (kernel.connect (probeTarget s) ≠ .unreachable ∧
      selectSource kernel aiNext s = ⟨s, .exit .connect⟩) ∨
    (s.source = 0 ∧ kernel.connect (probeTarget s) = .unreachable ∧
      selectSource kernel aiNext s = ⟨s, if aiNext then .retry else .exit .connect⟩) := by
  by_cases hs : s.source = 0
  · cases hc : kernel.connect (probeTarget s) with
    | unreachable => exact Or.inr (Or.inr ⟨hs, rfl, by simp [selectSource, hs, hc]⟩)
    | failed => exact Or.inr (Or.inl ⟨by simp, by simp [selectSource, hs, hc]⟩)
    | connected source =>
        exact Or.inl ⟨source, Or.inr (by simp), by simp [selectSource, hs, hc]⟩
  · exact Or.inl ⟨s.source, Or.inl hs, by simp [selectSource, hs]⟩

theorem selectSource_route (s : Rts) :
    (selectSource kernel aiNext s).rts.nroute = s.nroute ∧
      hops (selectSource kernel aiNext s).rts = hops s := by
  rcases selectSource_cases kernel aiNext s with ⟨source, -, h⟩ | ⟨-, h⟩ | ⟨-, -, h⟩
  · rw [h]
    exact ⟨(finishRun_spec kernel _).1, (finishRun_spec kernel _).2.1⟩
  · rw [h]
    exact ⟨rfl, rfl⟩
  · rw [h]
    exact ⟨rfl, rfl⟩

/-- The call returns -1 exactly when the probe address is unreachable. -/
theorem selectSource_retry (s : Rts) :
    (selectSource kernel aiNext s).outcome = .retry ↔
      s.source = 0 ∧ kernel.connect (probeTarget s) = .unreachable ∧ aiNext = true := by
  rcases selectSource_cases kernel aiNext s with ⟨source, hc, h⟩ | ⟨hc, h⟩ | ⟨hs, hc, h⟩
  · rw [h]
    simp only [(finishRun_spec kernel _).2.2, false_iff]
    intro hx
    rcases hc with hc | hc
    · exact hc hx.1
    · exact hc hx.2.1
  · rw [h]
    simp [hc]
  · rw [h]
    cases aiNext <;> simp [hs, hc]

theorem selectSource_retry_rts (s : Rts) (h : (selectSource kernel aiNext s).outcome = .retry) :
    (selectSource kernel aiNext s).rts = s := by
  obtain ⟨hs, hc, -⟩ := (selectSource_retry kernel aiNext s).mp h
  simp [selectSource, hs, hc]

/-- An outcome without an access behind `rspace` and without an overlong string. -/
def Bounded (o : Outcome) : Prop :=
  o ≠ .exit .overrun ∧ ∀ os, o = .pinging os → ∀ x ∈ os, x.length ≤ rspaceSize

theorem finishRun_bounded {s : Rts} (h : RouteFits s) : Bounded (finishRun kernel s).outcome := by
  have hfit : RouteFits { s with whereto := if s.whereto = 0 then s.source else s.whereto } :=
    ⟨h.route, h.prespec⟩
  have hin := ipOptions_inSpace kernel.accepts hfit
  unfold finishRun
  dsimp only
  split
  · rename_i e he
    rw [he] at hin
    exact ⟨fun hx => hin (Outcome.exit.inj hx), fun os hos => by simp at hos⟩
  · rename_i os hos
    rw [hos] at hin
    refine ⟨by simp, fun os' hos' => ?_⟩
    obtain rfl := Outcome.pinging.inj hos'
    exact hin

theorem selectSource_bounded {s : Rts} (h : RouteFits s) :
    Bounded (selectSource kernel aiNext s).outcome := by
  rcases selectSource_cases kernel aiNext s with ⟨source, -, hs⟩ | ⟨-, hs⟩ | ⟨-, -, hs⟩
  · rw [hs]
    exact finishRun_bounded kernel ⟨h.route, h.prespec⟩
  · rw [hs]
    exact ⟨by simp, fun os hos => by simp at hos⟩
  · rw [hs]
    cases aiNext <;> exact ⟨by simp, fun os hos => by simp at hos⟩

/-- The name and the numeric flag do not matter for the outcome. -/
theorem selectSource_outcome (s : Rts) (name : List Char) (numeric : Bool) :
    (selectSource kernel aiNext { s with hostname := name, optNumeric := numeric }).outcome =
      (selectSource kernel aiNext s).outcome := by
  have hopt : ∀ t : Rts, (finishRun kernel
      { t with hostname := name, optNumeric := numeric }).outcome =
        (finishRun kernel t).outcome := by
    intro t
    have heq : ipOptions kernel.accepts
        { t with hostname := name, optNumeric := numeric
                 whereto := if t.whereto = 0 then t.source else t.whereto } =
        ipOptions kernel.accepts
          { t with whereto := if t.whereto = 0 then t.source else t.whereto } := rfl
    unfold finishRun
    dsimp only
    rw [heq]
    split <;> rfl
  have hprobe : probeTarget { s with hostname := name, optNumeric := numeric } =
      probeTarget s := rfl
  unfold selectSource
  rw [hprobe]
  by_cases hs : s.source = 0
  · rw [if_pos hs, if_pos hs]
    cases kernel.connect (probeTarget s) with
    | unreachable => rfl
    | failed => rfl
    | connected source => exact hopt { s with source := source }
  · rw [if_neg hs, if_neg hs]
    exact hopt s

end Select

section Attempts
variable {names : Resolver} {destination : List Char} {s₀ : Rts}

theorem attempts_nil {argv : List (List Char)} {s : Rts} {es : List Entry}
    (h : firstInet es = none) : attempts names argv s es = [] := by
  induction es with
  | nil => rfl
  | cons e es ih =>
      cases e with
      | inet ai kernel => simp [firstInet] at h
      | other goesOn =>
          cases goesOn with
          | false => rfl
          | true => exact ih h

theorem attempts_first {argv : List (List Char)} {s : Rts} {es es' : List Entry} {kernel : Kernel}
    (h : firstInet es = some (kernel, es')) :
    ∃ ai, attempts names argv s es =
      let a := ping4Run names kernel s argv ai (es' ≠ [])
      ⟨ai, kernel, es' ≠ [], a⟩ ::
        if a.outcome = .retry then attempts names argv a.rts es' else [] := by
  induction es with
  | nil => simp [firstInet] at h
  | cons e es ih =>
      cases e with
      | inet ai k =>
          obtain ⟨rfl, rfl⟩ : k = kernel ∧ es = es' := by simpa [firstInet] using h
          refine ⟨ai, ?_⟩
          rw [attempts]
          dsimp only
          cases (ping4Run names k s argv ai (decide (es ≠ []))).outcome <;> simp
      | other goesOn =>
          cases goesOn with
          | false => simp [firstInet] at h
          | true => exact ih h

theorem probeTarget_hops {s : Rts} (h : hops s ≠ []) : probeTarget s = (hops s).getD 0 0 := by
  have hn : s.nroute ≠ 0 := fun h0 => h (by simp [hops, h0])
  rw [probeTarget, if_pos hn, hops]
  cases hr : s.route with
  | nil => simp
  | cons a as =>
      obtain ⟨n, hn⟩ := Nat.exists_eq_succ_of_ne_zero hn
      rw [hn]
      rfl

theorem length_hops {via : List (List Char)} {hs : List UInt32}
    (hv : via.mapM (hopAddr names) = some hs) : hs.length = via.length := by
  induction via generalizing hs with
  | nil =>
      simp only [List.mapM_nil, pure, Option.some.injEq] at hv
      simp [← hv]
  | cons target via ih =>
      simp only [List.mapM_cons, bind, Option.bind_eq_some_iff, pure, Option.some.injEq] at hv
      obtain ⟨a, -, hs', hvia, rfl⟩ := hv
      rw [List.length_cons, List.length_cons, ih hvia]

/-- With hops the source is selected towards the first of them. -/
theorem probeTarget_first {via : List (List Char)} {hs : List UInt32} {s : Rts} (hne : via ≠ [])
    (hv : via.mapM (hopAddr names) = some hs) (hh : hops s = hs) :
    probeTarget s = hs.getD 0 0 := by
  rw [← hh]
  refine probeTarget_hops fun hx => hne ?_
  have hlen := length_hops hv
  rw [← hh, hx, List.length_nil] at hlen
  exact List.length_eq_zero_iff.mp hlen.symm

/-- A first call with known hops reaches the source selection with each hop once. -/
theorem ping4Run_first {via : List (List Char)} {hs : List UInt32}
    (ha : Accepted s₀ (via.length + 1)) (h₀ : s₀.nroute = 0) (hr : s₀.route.length = 10)
    (hv : via.mapM (hopAddr names) = some hs) (kernel : Kernel) (ai : AddrInfo) (aiNext : Bool) :
    ∃ s, ping4Run names kernel s₀ (via ++ [destination]) ai aiNext = selectSource kernel aiNext s ∧
      s.nroute = hs.length ∧ hops s = hs ∧ s.source = s₀.source ∧ RouteFits s ∧
      s.route.length = 10 ∧ Accepted s (via.length + 1) := by
  obtain ⟨b, hb, hn, hn'⟩ := checkArgs_spec ha
  have hlen := length_hops hv
  obtain ⟨s, hf, hsame, hn₁, hh⟩ := @fillRoute_hops names ai destination
    { s₀ with optSourceroute := b } via hs hv (by simp only [h₀]; omega) hr
  simp only [h₀, Nat.zero_add] at hn₁
  refine ⟨s, ?_, hn₁, ?_, hsame.source, ⟨by omega, fun ht _ => ?_⟩, hsame.routeLength.trans hr,
    ha.congr hsame.optRroute hsame.optTimestamp hsame.tsType⟩
  · rw [ping4Run, List.length_append, List.length_singleton, hb]
    dsimp only
    rw [hf]
  · simpa [hops, h₀] using hh
  · have hle := hn' (hsame.optTimestamp ▸ ht)
    omega

/-- A hop that is not known ends the first call. -/
theorem ping4Run_unknown {via : List (List Char)} (ha : Accepted s₀ (via.length + 1))
    (h₀ : s₀.nroute = 0) (hr : s₀.route.length = 10) (hv : via.mapM (hopAddr names) = none)
    (kernel : Kernel) (ai : AddrInfo) (aiNext : Bool) :
    (ping4Run names kernel s₀ (via ++ [destination]) ai aiNext).outcome = .exit .lookup := by
  obtain ⟨b, hb, hn, -⟩ := checkArgs_spec ha
  have hf := @fillRoute_unknown names ai destination { s₀ with optSourceroute := b } via hv
    (by simp only [h₀]; omega) hr
  rw [ping4Run, List.length_append, List.length_singleton, hb]
  dsimp only
  rw [hf]

theorem first_clean {via : List (List Char)} (ha : Accepted s₀ (via.length + 1))
    (h₀ : s₀.nroute = 0) (hr : s₀.route.length = 10) (kernel : Kernel) (ai : AddrInfo)
    (aiNext : Bool) :
    Clean names via destination s₀
      ⟨ai, kernel, aiNext, ping4Run names kernel s₀ (via ++ [destination]) ai aiNext⟩ := by
  cases hv : via.mapM (hopAddr names) with
  | none =>
      have ho := @ping4Run_unknown names destination s₀ via ha h₀ hr hv kernel ai aiNext
      refine ⟨fun hs h => by simp [hv] at h, ?_, rfl, fun os hos => ?_⟩
      · simp only [ho]
        decide
      · simp [ho] at hos
  | some hs =>
      obtain ⟨s, hrun, hn, hh, -, hfit, -, -⟩ :=
        @ping4Run_first names destination s₀ via hs ha h₀ hr hv kernel ai aiNext
      have hb := selectSource_bounded kernel aiNext hfit
      obtain ⟨hroute, hhops⟩ := selectSource_route kernel aiNext s
      refine ⟨fun hs' h => ?_, ?_, rfl, ?_⟩
      · obtain rfl : hs = hs' := by simpa [hv] using h
        dsimp only
        rw [hrun]
        exact ⟨hroute.trans hn, hhops.trans hh⟩
      · dsimp only
        rw [hrun]
        exact hb.1
      · dsimp only
        rw [hrun]
        exact hb.2

/-- The first hops are still in the table when the second call appends its own. -/
theorem second_not_clean {via : List (List Char)} {hs : List UInt32} {s : Rts} (hne : via ≠ [])
    (hv : via.mapM (hopAddr names) = some hs) (ha : Accepted s (via.length + 1))
    (hn : s.nroute = hs.length) (hr : s.route.length = 10) (kernel : Kernel) (ai : AddrInfo)
    (aiNext : Bool) :
    ¬ Clean names via destination s₀
      ⟨ai, kernel, aiNext, ping4Run names kernel s (via ++ [destination]) ai aiNext⟩ := by
  intro hc
  have hpos : 0 < hs.length := by
    rw [length_hops hv]
    exact List.length_pos_iff.mpr hne
  obtain ⟨b, hb, -, -⟩ := checkArgs_spec ha
  have hrun : ping4Run names kernel s (via ++ [destination]) ai aiNext =
      match fillRoute names ai { s with optSourceroute := b } (via ++ [destination]) with
      | .error e => ⟨{ s with optSourceroute := b }, .exit e⟩
      | .ok s => selectSource kernel aiNext s := by
    rw [ping4Run, List.length_append, List.length_singleton, hb]
  rcases @fillRoute_again names ai destination { s with optSourceroute := b } via hs hv hr with
    hf | ⟨s', hf, hn'⟩
  · apply hc.inBounds
    simp [hrun, hf]
  · have hnr := (hc.route hs hv).1
    simp only [hrun, hf] at hnr
    rw [(selectSource_route kernel aiNext s').1, hn'] at hnr
    simp only at hnr
    omega

/-- States that differ in what the destination alone decides. -/
def Similar (s₀ s : Rts) : Prop :=
  ∃ w n o, s = { s₀ with whereto := w, hostname := n, optNumeric := o }

/-- Without hops a later call does what the first one does. -/
theorem ping4Run_similar {s : Rts} (h : Similar s₀ s) (h₀ : s₀.nroute = 0) (kernel : Kernel)
    (ai : AddrInfo) (aiNext : Bool) :
    Clean names [] destination s₀
        ⟨ai, kernel, aiNext, ping4Run names kernel s [destination] ai aiNext⟩ ∧
      ((ping4Run names kernel s [destination] ai aiNext).outcome = .retry →
        Similar s₀ (ping4Run names kernel s [destination] ai aiNext).rts) := by
  obtain ⟨r, n, hf⟩ := fillRoute_destination names ai destination
  have hrun : ∀ t : Rts, ping4Run names kernel t [destination] ai aiNext =
      selectSource kernel aiNext { t with
        whereto := r, hostname := n
        optNumeric := if (names.inetAton destination).isSome then true else t.optNumeric } := by
    intro t
    have hca : checkArgs t ([destination] : List (List Char)).length = .ok t := by simp [checkArgs]
    rw [ping4Run, hca]
    dsimp only
    rw [hf]
  obtain ⟨w, n', o, rfl⟩ := h
  have ho := hrun { s₀ with whereto := w, hostname := n', optNumeric := o }
  have ho₀ := hrun s₀
  refine ⟨⟨?_, ?_, ?_, ?_⟩, ?_⟩
  · intro hs hv
    obtain rfl : hs = [] := by simpa [pure, eq_comm] using hv
    dsimp only
    rw [ho, (selectSource_route kernel aiNext _).1, (selectSource_route kernel aiNext _).2]
    simp [hops, h₀]
  · dsimp only
    rw [ho]
    refine (selectSource_bounded kernel aiNext ⟨?_, fun _ _ => ?_⟩).1
    · simp [h₀]
    · simp [h₀]
  · dsimp only
    rw [List.nil_append, ho, ho₀]
    exact selectSource_outcome kernel aiNext
      { s₀ with
        whereto := r, hostname := n
        optNumeric := if (names.inetAton destination).isSome then true else s₀.optNumeric }
      n (if (names.inetAton destination).isSome then true else o)
  · dsimp only
    rw [ho]
    refine (selectSource_bounded kernel aiNext ⟨?_, fun _ _ => ?_⟩).2
    · simp [h₀]
    · simp [h₀]
  · rw [ho]
    intro hretry
    rw [selectSource_retry_rts kernel aiNext _ hretry]
    exact ⟨_, _, _, rfl⟩

/-- Without hops every attempt is clean. -/
theorem no_hops_clean {s : Rts} (h : Similar s₀ s) (h₀ : s₀.nroute = 0) (es : List Entry) :
    ∀ t ∈ attempts names [destination] s es, Clean names [] destination s₀ t := by
  induction es generalizing s with
  | nil => simp [attempts]
  | cons e es ih =>
      cases e with
      | other goesOn =>
          cases goesOn with
          | false => simp [attempts]
          | true => exact ih h
      | inet ai kernel =>
          obtain ⟨ai', hatt⟩ := @attempts_first names [destination] s (.inet ai kernel :: es) es
            kernel rfl
          obtain ⟨hclean, hsim⟩ :=
            @ping4Run_similar names destination s₀ s h h₀ kernel ai' (decide (es ≠ []))
          intro t ht
          rw [hatt] at ht
          rcases List.mem_cons.mp ht with rfl | ht
          · exact hclean
          · split_ifs at ht with hretry
            · exact ih (hsim hretry) t ht
            · simp at ht

/-- A run that falls back to a second IPv4 entry finds the hops of the first call there. -/
theorem fallback_not_clean {via : List (List Char)} {es : List Entry} {hs : List UInt32}
    (ha : Accepted s₀ (via.length + 1)) (h₀ : s₀.nroute = 0) (hr : s₀.route.length = 10)
    (hne : via ≠ [])
    (hv : via.mapM (hopAddr names) = some hs) (hfall : FallsBack s₀ hs es) :
    ¬ ∀ t ∈ attempts names (via ++ [destination]) s₀ es, Clean names via destination s₀ t := by
  intro hall
  obtain ⟨hsrc, kernel, es', hfirst, hconn, hsecond⟩ := hfall
  obtain ⟨⟨kernel₂, es₂⟩, hfirst₂⟩ := Option.isSome_iff_exists.mp hsecond
  obtain ⟨ai, hatt⟩ := @attempts_first names (via ++ [destination]) s₀ es es' kernel hfirst
  obtain ⟨s, hrun, hn, hh, hsource, -, hroute, hacc⟩ :=
    @ping4Run_first names destination s₀ via hs ha h₀ hr hv kernel ai (decide (es' ≠ []))
  have hes' : decide (es' ≠ []) = true := by
    have hne' : es' ≠ [] := fun hx => by simp [hx, firstInet] at hfirst₂
    simpa using hne'
  have hprobe : probeTarget s = hs.getD 0 0 := probeTarget_first hne hv hh
  have hretry : (selectSource kernel (decide (es' ≠ [])) s).outcome = .retry := by
    rw [selectSource_retry]
    refine ⟨hsource.trans hsrc, ?_, hes'⟩
    rw [hprobe]
    exact hconn
  have hrts := selectSource_retry_rts kernel _ s hretry
  obtain ⟨ai₂, hatt₂⟩ := @attempts_first names (via ++ [destination]) s es' es₂ kernel₂ hfirst₂
  refine second_not_clean hne hv hacc hn hroute kernel₂ ai₂ (decide (es₂ ≠ [])) (hall _ ?_)
  rw [hatt, hrun]
  dsimp only
  rw [if_pos hretry, hrts, hatt₂]
  simp

/-- Without a fallback `ping4_run` is called for at most one IPv4 entry. -/
theorem single_attempt_clean {via : List (List Char)} {es : List Entry}
    (ha : Accepted s₀ (via.length + 1)) (h₀ : s₀.nroute = 0) (hr : s₀.route.length = 10)
    (hne : via ≠ [])
    (hfall : ∀ hs, via.mapM (hopAddr names) = some hs → ¬ FallsBack s₀ hs es) :
    ∀ t ∈ attempts names (via ++ [destination]) s₀ es, Clean names via destination s₀ t := by
  intro t ht
  cases hfirst : firstInet es with
  | none =>
      rw [attempts_nil hfirst] at ht
      simp at ht
  | some first =>
      obtain ⟨kernel, es'⟩ := first
      obtain ⟨ai, hatt⟩ := @attempts_first names (via ++ [destination]) s₀ es es' kernel hfirst
      rw [hatt] at ht
      rcases List.mem_cons.mp ht with rfl | ht
      · exact first_clean ha h₀ hr kernel ai _
      -- a second attempt would need the first one to have returned -1
      split_ifs at ht with hretry
      · cases hv : via.mapM (hopAddr names) with
        | none => simp [ping4Run_unknown ha h₀ hr hv] at hretry
        | some hs =>
            obtain ⟨s, hrun, -, hh, hsource, -, -, -⟩ :=
              @ping4Run_first names destination s₀ via hs ha h₀ hr hv kernel ai
                (decide (es' ≠ []))
            rw [hrun, selectSource_retry, probeTarget_first hne hv hh] at hretry
            have hlast : firstInet es' = none := by
              by_contra hx
              exact hfall hs hv ⟨hsource.symm.trans hretry.1, kernel, es', hfirst, hretry.2.1,
                Option.isSome_iff_ne_none.mpr hx⟩
            rw [attempts_nil hlast] at ht
            simp at ht
      · simp at ht

/-- Every attempt finds the route as a first one does, exactly when there are no hops
or the run does not fall back to a second IPv4 entry. -/
theorem route_clean_iff (names : Resolver) (via : List (List Char)) (destination : List Char)
    (s₀ : Rts) (es : List Entry) (h₀ : s₀.nroute = 0) (hr : s₀.route.length = 10)
    (ha : Accepted s₀ (via.length + 1)) :
    (∀ t ∈ attempts names (via ++ [destination]) s₀ es, Clean names via destination s₀ t) ↔
      via = [] ∨ ∀ hs, via.mapM (hopAddr names) = some hs → ¬ FallsBack s₀ hs es := by
  by_cases hne : via = []
  · subst hne
    exact iff_of_true (no_hops_clean ⟨_, _, _, rfl⟩ h₀ es) (Or.inl rfl)
  · rw [or_iff_right hne]
    constructor
    · intro hall hs hv hfall
      exact fallback_not_clean ha h₀ hr hne hv hfall hall
    · exact single_attempt_clean ha h₀ hr hne

end Attempts

/-- Every name is 10.0.0.1, in network order. -/
def oneHost : Resolver := ⟨fun _ => some 0x0100000a, fun _ => none⟩

def noRoute : Kernel := ⟨fun _ => .unreachable, fun _ => true⟩

def routed : Kernel := ⟨fun _ => .connected 0x0200000a, fun _ => true⟩

/-- A hop and two addresses of the destination, the first of which is reachable. -/
theorem route_clean_iff_reachable :
    Accepted {} 2 ∧
      ∀ t ∈ attempts oneHost (["gw".toList] ++ ["host".toList]) {}
          [.inet ⟨1, none⟩ routed, .inet ⟨2, none⟩ routed],
        Clean oneHost ["gw".toList] "host".toList {} t := by
  have hacc : Accepted {} 2 := ⟨_, rfl⟩
  refine ⟨hacc, (route_clean_iff oneHost ["gw".toList] "host".toList {} _ rfl rfl hacc).mpr ?_⟩
  right
  intro hs _ hf
  obtain ⟨-, kernel, es, hfirst, hconn, -⟩ := hf
  obtain ⟨rfl, -⟩ : routed = kernel ∧ _ = es := by simpa [firstInet] using hfirst
  simp [routed] at hconn

/-- Nine hops and an unreachable first address: the second call writes `route[10]`. -/
theorem nine_hops_overrun :
    ¬ ∀ t ∈ attempts oneHost (List.replicate 9 "gw".toList ++ ["host".toList]) {}
        [.inet ⟨1, none⟩ noRoute, .inet ⟨2, none⟩ routed],
      Clean oneHost (List.replicate 9 "gw".toList) "host".toList {} t := by
  intro hall
  have hlast : ∃ t ∈ attempts oneHost (List.replicate 9 "gw".toList ++ ["host".toList]) {}
      [.inet ⟨1, none⟩ noRoute, .inet ⟨2, none⟩ routed], t.result.outcome = .exit .overrun :=
    ⟨_, List.mem_cons_of_mem _ (List.mem_singleton_self _), rfl⟩
  obtain ⟨t, ht, ho⟩ := hlast
  exact (hall t ht).inBounds ho

end Iputils.SourceRoute
