import Iputils.RouteReplies

/-!
# The device that arping sends from

`check_device` goes over the interfaces of the system, those of the given name if there is
one, and stops at the second that ARP can use. A device is set only if there is one alone.
With a name, the program ends at an interface of that name that is down or does not use
ARP. The main result says for which names the program goes on, and with which device.
-/
set_option autoImplicit false

namespace Iputils.ArpingDevice
open ByteBuffer Arping RouteReplies

def iffUp : BitVec 32 := 0x1
def iffLoopback : BitVec 32 := 0x8
def iffNoarp : BitVec 32 := 0x80

/-- The options that the checks look at. -/
structure Options where
  quiet : Bool
  dad : Bool
deriving Repr, DecidableEq

variable (system : System) (o : Options)

section Code

/-- The exit for an interface of the given name, unless there is none. -/
def refuse (device : Device) (status : ℤ) (why : List Char) : Except Exit Bool :=
  match device.name with
  | none => .ok false
  | some name =>
      .error ⟨status, if o.quiet then [] else "Interface \"".toList ++ name ++ "\" is ".toList ++ why⟩

def checkIfflags (device : Device) (ifflags : BitVec 32) : Except Exit Bool :=
  if ifflags &&& iffUp = 0 then refuse o device 2 "down\n".toList
  else if ifflags &&& (iffNoarp ||| iffLoopback) ≠ 0 then
    refuse o device (if o.dad then 0 else 2) "not ARPable\n".toList
  else .ok true

/-- There is a name, and the interface has another one. -/
def otherName (name : Option (List Char)) (ifa : Ifaddrs) : Bool :=
  name.any fun name => name ≠ ifa.name

/-- The loop of `check_device` with its variable `n`. -/
def scanDevices : ℕ → Device → List Ifaddrs → Except Exit (ℕ × Device)
  | n, device, [] => .ok (n, device)
  | n, device, ifa :: rest =>
      if ifa.packet = none then scanDevices n device rest
      else if otherName device.name ifa = true then scanDevices n device rest
      else
        match checkIfflags o device ifa.flags with
        | .error exit => .error exit
        | .ok false => scanDevices n device rest
        | .ok true =>
            if ifa.packet = some 0 ∨ ifa.broadaddr = none then scanDevices n device rest
            else if n ≠ 0 then .ok (n + 1, { device with ifa := some ifa })
            else scanDevices (n + 1) { device with ifa := some ifa } rest

/-- The end of `check_device`, with what the loop leaves of `n` and the device. -/
def settleDevice (n : ℕ) (device : Device) : ℤ × Device :=
  match device.ifa with
  | none => (1, device)
  | some ifa =>
      let ifindex := system.ifNametoindex ifa.name
      if n ≠ 1 then (1, device)
      else if ifindex = 0 then (-1, { device with ifindex := 0 })
      else (0, { device with ifindex := ifindex, name := some ifa.name })

/-- The return value and the device. -/
def checkDevice (device : Device) : Except Exit (ℤ × Device) :=
  match system.getifaddrs with
  | none => .ok (-1, device)
  | some ifas => (scanDevices o 0 device ifas).map fun r => settleDevice system r.1 r.2

/-- `main` behind the call of `check_device`. Without a device the program goes on and ends when
its socket turns out to have no hardware address. -/
def goOn (c : ℤ × Device) : Except Exit Device :=
  if c.1 < 0 then .error { status := 2 }
  else if c.2.ifindex = 0 then
    match c.2.name with
    | some name => .error ⟨2, "Device ".toList ++ name ++ " not available.".toList⟩
    | none => .ok c.2
  else .ok c.2

/-- `main` from the target to the source address. -/
def chooseDevice (name : Option (List Char)) (gdst : InAddr) : Option (Except Exit Device) :=
  let device : Device := { name := if name = some [] then none else name }
  (if device.name = none then guessDevice system device gdst else some (.ok device)).map fun r =>
    r.bind fun device => (checkDevice system o device).bind goOn

/-- The hardware address that the frames go to first. -/
def findBroadcastAddress (device : Device) (he : SockaddrLl) : SockaddrLl :=
  match device.ifa.bind Ifaddrs.broadaddr with
  | some sll =>
      if sll.halen = he.halen then
        { he with addr := store he.addr 0 (bytesAt sll.addr 0 he.halen.toNat) }
      else { he with addr := store he.addr 0 (List.replicate he.halen.toNat 255) }
  | none => { he with addr := store he.addr 0 (List.replicate he.halen.toNat 255) }

end Code

section Meaning

/-- An interface that ARP can use. -/
structure Suitable (ifa : Ifaddrs) : Prop where
  up : ifa.flags &&& iffUp ≠ 0
  arp : ifa.flags &&& (iffNoarp ||| iffLoopback) = 0
  packet : ifa.packet ≠ none
  halen : ifa.packet ≠ some 0
  broadaddr : ifa.broadaddr ≠ none

/-- The interfaces that the loop looks at. -/
def considered (name : Option (List Char)) (ifa : Ifaddrs) : Bool :=
  decide (ifa.packet ≠ none) && !otherName name ifa

variable {system} {o} {device : Device} {ifas : List Ifaddrs} {ifa : Ifaddrs} {name : List Char}

theorem checkIfflags_suitable (h : Suitable ifa) : checkIfflags o device ifa.flags = .ok true := by
  unfold checkIfflags
  rw [if_neg h.up, if_neg (not_not.mpr h.arp)]

theorem refuse_ne (status : ℤ) (why : List Char) : refuse o device status why ≠ .ok true := by
  intro h
  unfold refuse at h
  cases hname : device.name with
  | none =>
    rw [hname] at h
    cases h
  | some name =>
    rw [hname] at h
    cases h

theorem of_checkIfflags {ifflags : BitVec 32} (h : checkIfflags o device ifflags = .ok true) :
    ifflags &&& iffUp ≠ 0 ∧ ifflags &&& (iffNoarp ||| iffLoopback) = 0 := by
  unfold checkIfflags at h
  refine ⟨fun hup => ?_, by_contra fun harp => ?_⟩
  · rw [if_pos hup] at h
    exact refuse_ne _ _ h
  · by_cases hup : ifflags &&& iffUp = 0
    · rw [if_pos hup] at h
      exact refuse_ne _ _ h
    · rw [if_neg hup, if_pos harp] at h
      exact refuse_ne _ _ h

/-- The loop passes over the others. -/
theorem scanDevices_filter (n : ℕ) (device : Device) (ifas : List Ifaddrs) :
    scanDevices o n device ifas =
      scanDevices o n device (ifas.filter (considered device.name)) := by
  induction ifas generalizing n device with
  | nil => rfl
  | cons ifa ifas ih =>
    by_cases hconsidered : considered device.name ifa = true
    · have hboth := hconsidered
      simp only [considered, Bool.and_eq_true, decide_eq_true_eq, Bool.not_eq_true'] at hboth
      have hname := ne_true_of_eq_false hboth.2
      rw [List.filter_cons_of_pos hconsidered]
      unfold scanDevices
      rw [if_neg hboth.1, if_neg hboth.1, if_neg hname, if_neg hname]
      cases checkIfflags o device ifa.flags with
      | error exit => rfl
      | ok good =>
        cases good with
        | false => exact ih n device
        | true =>
          dsimp only
          split_ifs
          · exact ih n device
          · rfl
          · exact ih (n + 1) { device with ifa := some ifa }
    · rw [List.filter_cons_of_neg hconsidered, ← ih]
      have heither : ifa.packet = none ∨ otherName device.name ifa = true := by
        by_contra hnone
        push Not at hnone
        exact hconsidered (by simp [considered, hnone])
      rw [scanDevices]
      rcases heither with hpacket | hname
      · rw [if_pos hpacket]
      · rw [if_pos hname, ite_self]

theorem otherName_eq_false : otherName (some name) ifa = false ↔ ifa.name = name := by
  refine decide_eq_false_iff_not.trans (not_not.trans eq_comm)

theorem scanDevices_suitable (hname : otherName device.name ifa = false) (h : Suitable ifa) :
    scanDevices o 0 device [ifa] = .ok (1, { device with ifa := some ifa }) := by
  have hother := ne_true_of_eq_false hname
  unfold scanDevices
  rw [if_neg h.packet, if_neg hother, checkIfflags_suitable h]
  dsimp only
  rw [if_neg (not_or.mpr ⟨h.halen, h.broadaddr⟩), if_neg (by decide)]
  rfl

/-- An interface that is not suitable sets nothing. -/
theorem scanDevices_unsuitable (hname : otherName device.name ifa = false)
    (hpacket : ifa.packet ≠ none) (h : ¬ Suitable ifa) {r : ℕ × Device}
    (hscan : scanDevices o 0 device [ifa] = .ok r) : r = (0, device) := by
  have hother := ne_true_of_eq_false hname
  unfold scanDevices at hscan
  rw [if_neg hpacket, if_neg hother] at hscan
  by_cases hgood : checkIfflags o device ifa.flags = .ok true
  · have hflags := of_checkIfflags hgood
    have hmissing : ifa.packet = some 0 ∨ ifa.broadaddr = none := by
      by_contra hnone
      push Not at hnone
      exact h ⟨hflags.1, hflags.2, hpacket, hnone.1, hnone.2⟩
    rw [hgood] at hscan
    dsimp only at hscan
    rw [if_pos hmissing] at hscan
    exact (Except.ok.inj hscan).symm
  · cases hflags : checkIfflags o device ifa.flags with
    | error exit =>
      rw [hflags] at hscan
      cases hscan
    | ok good =>
      cases good with
      | true => exact absurd hflags hgood
      | false =>
        rw [hflags] at hscan
        exact (Except.ok.inj hscan).symm

/-- Interfaces of different names: one at most has the name that is looked for. -/
theorem filter_considered (hdistinct : ((ifas.filter fun i => i.packet ≠ none).map Ifaddrs.name).Nodup) :
    (ifas.filter (considered (some name))).length ≤ 1 := by
  have hnames : (ifas.filter (considered (some name))).map Ifaddrs.name =
      List.replicate (ifas.filter (considered (some name))).length name := by
    refine List.eq_replicate_iff.mpr ⟨List.length_map _, ?_⟩
    intro c hc
    obtain ⟨ifa, hifa, rfl⟩ := List.mem_map.mp hc
    have hboth := (List.mem_filter.mp hifa).2
    rw [considered, Bool.and_eq_true, Bool.not_eq_true'] at hboth
    exact otherName_eq_false.mp hboth.2
  have hsublist : (ifas.filter (considered (some name))).Sublist
      (ifas.filter fun i => i.packet ≠ none) := by
    refine List.monotone_filter_right ifas fun ifa h => ?_
    rw [considered, Bool.and_eq_true] at h
    exact h.1
  have hnodup := (hsublist.map Ifaddrs.name).nodup hdistinct
  rw [hnames] at hnodup
  exact List.nodup_replicate.mp hnodup

theorem nil_or_singleton (h : ifas.length ≤ 1) : ifas = [] ∨ ∃ ifa, ifas = [ifa] := by
  rcases ifas with _ | ⟨ifa, _ | ⟨ifa', l⟩⟩
  · exact Or.inl rfl
  · exact Or.inr ⟨ifa, rfl⟩
  · simp at h

/-- A suitable interface of the name is found. -/
theorem checkDevice_found (hifas : system.getifaddrs = some ifas)
    (hfilter : ifas.filter (considered device.name) = [ifa]) (hname : otherName device.name ifa = false)
    (h : Suitable ifa) (hindex : system.ifNametoindex ifa.name ≠ 0) :
    checkDevice system o device =
      .ok (0, ⟨some ifa.name, some ifa, system.ifNametoindex ifa.name⟩) := by
  unfold checkDevice
  rw [hifas]
  dsimp only
  rw [scanDevices_filter, hfilter, scanDevices_suitable hname h]
  exact congrArg Except.ok (if_neg hindex)

/-- What `check_device` leaves a device that has a name but no interface yet: one of the name that
is suitable, or nothing new. -/
theorem of_checkDevice (hifas : system.getifaddrs = some ifas)
    (hdistinct : ((ifas.filter fun i => i.packet ≠ none).map Ifaddrs.name).Nodup)
    (hname : device.name = some name) (hifa : device.ifa = none) {c : ℤ × Device}
    (hc : checkDevice system o device = .ok c) (hpos : 0 ≤ c.1) :
    (∃ ifa ∈ ifas, ifa.name = name ∧ Suitable ifa ∧ system.ifNametoindex name ≠ 0 ∧
      c.2 = ⟨some name, some ifa, system.ifNametoindex name⟩) ∨ c.2 = device := by
  have hfew : (ifas.filter (considered (some name))).length ≤ 1 := filter_considered hdistinct
  unfold checkDevice at hc
  rw [hifas] at hc
  dsimp only at hc
  rw [scanDevices_filter, hname] at hc
  have hnone : settleDevice system 0 device = (1, device) := by
    unfold settleDevice
    rw [hifa]
  rcases nil_or_singleton hfew with hempty | ⟨ifa, hone⟩
  · rw [hempty] at hc
    right
    rw [← Except.ok.inj hc]
    exact congrArg Prod.snd hnone
  · have hmem : ifa ∈ ifas.filter (considered (some name)) := by
      rw [hone]
      exact List.mem_cons_self
    obtain ⟨hifas', hboth⟩ := List.mem_filter.mp hmem
    rw [considered, Bool.and_eq_true, decide_eq_true_eq, Bool.not_eq_true', ← hname] at hboth
    rw [hone] at hc
    by_cases hsuitable : Suitable ifa
    · left
      have hnamed : ifa.name = name := otherName_eq_false.mp (hname ▸ hboth.2)
      rw [scanDevices_suitable hboth.2 hsuitable] at hc
      obtain rfl := Except.ok.inj hc
      by_cases hindex : system.ifNametoindex ifa.name = 0
      · have hfailed : (settleDevice system 1 { device with ifa := some ifa }).1 = -1 :=
          congrArg Prod.fst (if_pos hindex)
        rw [hfailed] at hpos
        cases hpos
      · refine ⟨ifa, hifas', hnamed, hsuitable, hnamed ▸ hindex, ?_⟩
        rw [← hnamed]
        exact congrArg Prod.snd (if_neg hindex)
    · right
      cases hscan : scanDevices o 0 device [ifa] with
      | error exit =>
        rw [hscan] at hc
        cases hc
      | ok r =>
        obtain rfl := scanDevices_unsuitable hboth.2 hboth.1 hsuitable hscan
        rw [hscan] at hc
        rw [← Except.ok.inj hc]
        exact congrArg Prod.snd hnone

theorem of_goOn {c : ℤ × Device} (h : goOn c = .ok device) : 0 ≤ c.1 ∧ device = c.2 := by
  unfold goOn at h
  by_cases hneg : c.1 < 0
  · rw [if_pos hneg] at h
    cases h
  · refine ⟨not_lt.mp hneg, ?_⟩
    rw [if_neg hneg] at h
    by_cases hindex : c.2.ifindex = 0
    · rw [if_pos hindex] at h
      cases hname : c.2.name with
      | none =>
        rw [hname] at h
        exact (Except.ok.inj h).symm
      | some name =>
        rw [hname] at h
        cases h
    · rw [if_neg hindex] at h
      exact (Except.ok.inj h).symm

end Meaning

variable {system} {o} {device : Device} {ifas : List Ifaddrs} {name : List Char} {gdst : InAddr}

/-- With `-I` the program goes on exactly if the interface of that name can carry ARP and has an
index, and then with this interface. -/
theorem named_device_iff (hne : name ≠ []) (hifas : system.getifaddrs = some ifas)
    (hdistinct : ((ifas.filter fun i => i.packet ≠ none).map Ifaddrs.name).Nodup) :
    chooseDevice system o (some name) gdst = some (.ok device) ↔
      ∃ ifa ∈ ifas, ifa.name = name ∧ Suitable ifa ∧ system.ifNametoindex name ≠ 0 ∧
        device = ⟨some name, some ifa, system.ifNametoindex name⟩ := by
  have hchoose : chooseDevice system o (some name) gdst =
      some ((checkDevice system o { name := some name }).bind goOn) := by
    have hnonempty : ¬ some name = some [] := fun h => hne (Option.some.inj h)
    unfold chooseDevice
    dsimp only
    rw [if_neg hnonempty, if_neg (Option.some_ne_none name)]
    rfl
  rw [hchoose, Option.some.injEq]
  constructor
  · intro h
    cases hc : checkDevice system o { name := some name } with
    | error exit =>
      rw [hc] at h
      cases h
    | ok c =>
      rw [hc] at h
      change goOn c = .ok device at h
      obtain ⟨hpos, hdevice⟩ := of_goOn h
      rcases of_checkDevice hifas hdistinct rfl rfl hc hpos with hfound | hsame
      · obtain ⟨ifa, hmem, hname, hsuitable, hindex, hset⟩ := hfound
        exact ⟨ifa, hmem, hname, hsuitable, hindex, hdevice.trans hset⟩
      · unfold goOn at h
        rw [if_neg (not_lt.mpr hpos), hsame, if_pos rfl] at h
        cases h
  · rintro ⟨ifa, hmem, rfl, hsuitable, hindex, rfl⟩
    have hconsidered : considered (some ifa.name) ifa = true := by
      rw [considered, otherName_eq_false.mpr rfl, decide_eq_true hsuitable.packet]
      rfl
    have hone : ifas.filter (considered (some ifa.name)) = [ifa] := by
      have hfew : (ifas.filter (considered (some ifa.name))).length ≤ 1 := filter_considered hdistinct
      have hin := List.mem_filter.mpr ⟨hmem, hconsidered⟩
      obtain hempty | ⟨ifa', hsingle⟩ := nil_or_singleton hfew
      · rw [hempty] at hin
        cases hin
      · rw [hsingle] at hin
        rw [hsingle, List.mem_singleton.mp hin]
    rw [checkDevice_found hifas hone (otherName_eq_false.mpr rfl) hsuitable hindex]
    exact if_neg hindex

/-- Without `-I` the device of the route is kept, unless an interface of its name is set. -/
theorem routed_device {ifindex : ℤ} (hifas : system.getifaddrs = some ifas)
    (hdistinct : ((ifas.filter fun i => i.packet ≠ none).map Ifaddrs.name).Nodup)
    (hguess : guessDevice system { name := none } gdst = some (.ok ⟨some name, none, ifindex⟩))
    (h : chooseDevice system o none gdst = some (.ok device)) :
    (∃ ifa ∈ ifas, ifa.name = name ∧ Suitable ifa ∧
      device = ⟨some name, some ifa, system.ifNametoindex name⟩) ∨
      device = ⟨some name, none, ifindex⟩ := by
  have hchoose : chooseDevice system o none gdst =
      some ((checkDevice system o ⟨some name, none, ifindex⟩).bind goOn) := by
    unfold chooseDevice
    dsimp only
    rw [if_neg (Option.some_ne_none []).symm, if_pos rfl, hguess]
    rfl
  rw [hchoose, Option.some.injEq] at h
  cases hc : checkDevice system o ⟨some name, none, ifindex⟩ with
  | error exit =>
    rw [hc] at h
    cases h
  | ok c =>
    rw [hc] at h
    obtain ⟨hpos, hdevice⟩ := of_goOn h
    rcases of_checkDevice hifas hdistinct rfl rfl hc hpos with hfound | hsame
    · obtain ⟨ifa, hmem, hname, hsuitable, hindex, hset⟩ := hfound
      exact Or.inl ⟨ifa, hmem, hname, hsuitable, hdevice.trans hset⟩
    · exact Or.inr (hdevice.trans hsame)

/-- The hardware address of the first frames: the broadcast address of the interface if there is
one of the same length, else ones. -/
theorem hw_findBroadcastAddress (he : SockaddrLl) :
    (findBroadcastAddress device he).hw =
      match device.ifa.bind Ifaddrs.broadaddr with
      | some sll => if sll.halen = he.halen then sll.hw else List.replicate he.halen.toNat 255
      | none => List.replicate he.halen.toNat 255 := by
  have hstored : ∀ bytes : List UInt8, bytes.length = he.halen.toNat →
      bytesAt (store he.addr 0 bytes) 0 he.halen.toNat = bytes := by
    intro bytes hbytes
    refine bytesAt_append [] bytes (he.addr.drop bytes.length) ?_ rfl hbytes
    rw [store, List.take_zero, Nat.zero_add, List.append_assoc]
  have hones := hstored (List.replicate he.halen.toNat 255) List.length_replicate
  unfold findBroadcastAddress
  cases device.ifa.bind Ifaddrs.broadaddr with
  | none => exact hones
  | some sll =>
    by_cases hsame : sll.halen = he.halen
    · dsimp only
      rw [if_pos hsame, if_pos hsame]
      have hlen : (bytesAt sll.addr 0 he.halen.toNat).length = he.halen.toNat := by
        rw [bytesAt, List.length_map, List.length_range]
      refine (hstored _ hlen).trans ?_
      rw [SockaddrLl.hw, hsame]
    · dsimp only
      rw [if_neg hsame, if_neg hsame]
      exact hones

/-- The loopback interface and an Ethernet. -/
def sampleInterfaces : List Ifaddrs :=
  [⟨"lo".toList, 0x49, some 6, some ⟨772, 0, 6, List.replicate 8 0⟩⟩,
    ⟨"eth0".toList, 0x1043, some 6, some ⟨1, 0, 6, List.replicate 8 255⟩⟩]

theorem named_device_iff_eth :
    chooseDevice { sampleSystem with getifaddrs := some sampleInterfaces } ⟨false, false⟩
        (some "eth0".toList) ⟨[10, 0, 0, 9], rfl⟩ =
      some (.ok ⟨some "eth0".toList, sampleInterfaces.getLast?, 2⟩) ↔
      ∃ ifa ∈ sampleInterfaces, ifa.name = "eth0".toList ∧ Suitable ifa ∧
        sampleSystem.ifNametoindex "eth0".toList ≠ 0 ∧
        (⟨some "eth0".toList, sampleInterfaces.getLast?, 2⟩ : Device) =
          ⟨some "eth0".toList, some ifa, sampleSystem.ifNametoindex "eth0".toList⟩ :=
  named_device_iff (by decide) rfl (by decide)

end Iputils.ArpingDevice
