import Iputils.Arping
import Iputils.MachineInt

/-!
# The device of a route

Without a device `arping` asks the system for the route to its target and takes the
outgoing interface from the reply: messages in a buffer, each with its length, and in a
message of a route attributes, each with its length. Both loops step over padding to
four bytes. The length that is left of a message is cut to 16 bits when it is compared.
A reply that is well formed is read as the messages and attributes that it is made of.
-/
set_option autoImplicit false

namespace Iputils.RouteReplies
open MachineInt ByteBuffer PrintfText Arping

def nlmsgError : ℤ := 2
def nlmsgDone : ℤ := 3
def nlmsgOverrun : ℤ := 4
def rtmNewroute : ℤ := 24
def rtmGetroute : ℤ := 26
def rtaDst : ℤ := 1
def rtaOif : ℤ := 4

/-- `sizeof(struct nlmsghdr)` -/
def nlmsgHdrlen : ℕ := 16

/-- `NLMSG_SPACE(sizeof(struct rtmsg))` -/
def routeSpace : ℕ := 28

def bufferSize : ℕ := 4096

/-- `NLMSG_ALIGN` and `RTA_ALIGN` -/
def align4 (n : ℕ) : ℕ := (n + 3) / 4 * 4

def le32 (x : ℤ) : List UInt8 := le16 x ++ le16 (x / 65536)

def le32At (buf : List UInt8) (i : ℕ) : ℤ := le16At buf i + 65536 * le16At buf (i + 2)

/-- An entry of the list of `getifaddrs`: `packet` is the length of its address if that is of
family `AF_PACKET`. -/
structure Ifaddrs where
  name : List Char
  flags : BitVec 32
  packet : Option UInt8
  broadaddr : Option SockaddrLl
deriving Repr, DecidableEq

/-- `struct device` -/
structure Device where
  name : Option (List Char)
  ifa : Option Ifaddrs := none
  ifindex : ℤ := 0
deriving Repr, DecidableEq

/-- What the system answers. `route` is the datagram that is received for a query, if one is. -/
structure System where
  route : List UInt8 → Option (List UInt8)
  ifIndextoname : ℤ → Option (List Char)
  ifNametoindex : List Char → ℤ
  getifaddrs : Option (List Ifaddrs)

/-- An exit of the program, and what it prints before. -/
structure Exit where
  status : ℤ
  text : List Char := []
deriving Repr, DecidableEq

variable (system : System)

/-! ## Reading -/

section Code

/-- The loop of `outgoing_device`: `mem` is the buffer from `ra` on, `len` what is compared of
the variable. A read behind the buffer has no result. At every turn at least four bytes of
the buffer are passed, so that its length is enough of a bound. -/
def attributeLoop : ℕ → Device → ℕ → List UInt8 → Option (Device × ℤ)
  | 0, _, _, _ => none
  | fuel + 1, device, len, mem =>
      if len < 4 then some (device, 0)
      else if mem.length < 2 then none
      else
        let rtaLen := (le16At mem 0).toNat
        let len' := (len + 65536 - align4 rtaLen) % 65536
        if rtaLen < 4 ∨ len < rtaLen then some (device, 0)
        else if mem.length < 4 then none
        else if le16At mem 2 = rtaOif then
          if mem.length < 8 then none
          else
            let oif := i32 (le32At mem 4)
            match system.ifIndextoname oif with
            | none => some ({ device with ifindex := oif }, 1)
            | some name =>
                attributeLoop fuel { device with ifindex := oif, name := some name } len'
                  (mem.drop (align4 rtaLen))
        else attributeLoop fuel device len' (mem.drop (align4 rtaLen))

/-- The device and the return value; `mem` is the buffer from `nh` on. -/
def outgoingDevice (device : Device) (mem : List UInt8) : Option (Device × ℤ) :=
  if le16At mem 4 ≠ rtmNewroute then some (device, 1)
  else
    attributeLoop system (mem.length + 1) device ((le32At mem 0 - routeSpace) % 65536).toNat
      (mem.drop routeSpace)

/-- The loop of `netlink_query` with its variables `ret` and `msg_len`. -/
def messageLoop (seq : ℤ) : ℕ → Device → ℤ → ℤ → List UInt8 → Option (Device × ℤ)
  | 0, _, _, _, _ => none
  | fuel + 1, device, ret, len, mem =>
      if len < nlmsgHdrlen then some (device, ret)
      else if mem.length < nlmsgHdrlen then none
      else
        let n := (le32At mem 0).toNat
        let type := le16At mem 4
        let next := fun (r : Device × ℤ) =>
          messageLoop seq fuel r.1 r.2 (len - align4 n) (mem.drop (align4 n))
        if n < nlmsgHdrlen ∨ len < n then some (device, ret)
        else if le32At mem 8 ≠ seq then next (device, ret)
        else if type = nlmsgError ∨ type = nlmsgOverrun then some (device, ret)
        else if type = nlmsgDone then next (device, 0)
        else (outgoingDevice system device mem).bind next

/-- A message with its header and its padding. -/
def messageBytes (type flags seq : ℤ) (body : List UInt8) : List UInt8 :=
  le32 (nlmsgHdrlen + body.length) ++ le16 type ++ le16 flags ++ le32 seq ++ le32 0 ++ body ++
    List.replicate (align4 body.length - body.length) 0

def attributeBytes (type : ℤ) (data : List UInt8) : List UInt8 :=
  le16 (4 + data.length) ++ le16 type ++ data ++
    List.replicate (align4 data.length - data.length) 0

/-- The query of `guess_device`, which is the first of the program. -/
def routeQuery (gdst : InAddr) : List UInt8 :=
  messageBytes rtmGetroute 1 1 (2 :: List.replicate 11 0 ++ attributeBytes rtaDst gdst.bytes)

/-- The query and its answer in one buffer. -/
def netlinkQuery (device : Device) (query : List UInt8) : Option (Except Exit Device) :=
  match system.route query with
  | none => some (.error { status := 1 })
  | some reply =>
      let reply := reply.take bufferSize
      let buffer := query ++ List.replicate (bufferSize - query.length) 0
      (messageLoop system 1 (bufferSize + 1) device 1 reply.length (store buffer 0 reply)).map
        fun r => if r.2 ≠ 0 then .error { status := 1 } else .ok r.1

def guessDevice (device : Device) (gdst : InAddr) : Option (Except Exit Device) :=
  netlinkQuery system device (routeQuery gdst)

end Code

/-! ## Well-formed replies -/

section Replies

structure Attribute where
  type : ℤ
  data : List UInt8
  type_range : 0 ≤ type ∧ type < 65536
  data_fits : 4 + data.length < 65536
  oif_fits : type = rtaOif → 4 ≤ data.length

def Attribute.bytes (a : Attribute) : List UInt8 := attributeBytes a.type a.data

def Attribute.oif (a : Attribute) : ℤ := i32 (le32At a.data 0)

/-- A message of a route, or another one. -/
inductive Body
  | route (header : List UInt8) (attributes : List Attribute) (twelve : header.length = 12)
  | other (type : ℤ) (range : 0 ≤ type ∧ type < 65536) (ne : type ≠ rtmNewroute) (body : List UInt8)

def Body.type : Body → ℤ
  | .route .. => rtmNewroute
  | .other type .. => type

def Body.bytes : Body → List UInt8
  | .route header attributes _ => header ++ attributes.flatMap Attribute.bytes
  | .other _ _ _ body => body

structure Message where
  seq : ℤ
  flags : ℤ
  body : Body
  seq_range : 0 ≤ seq ∧ seq < 4294967296

def Message.bytes (m : Message) : List UInt8 := messageBytes m.body.type m.flags m.seq m.body.bytes

/-- The attributes, one after another. -/
def takeAttributes : Device → List Attribute → Device × ℤ
  | device, [] => (device, 0)
  | device, a :: as =>
      if a.type = rtaOif then
        match system.ifIndextoname a.oif with
        | none => ({ device with ifindex := a.oif }, 1)
        | some name => takeAttributes { device with ifindex := a.oif, name := some name } as
      else takeAttributes device as

def takeBody (device : Device) : Body → Device × ℤ
  | .route _ attributes _ => takeAttributes system device attributes
  | .other type .. => if type = nlmsgDone then (device, 0) else (device, 1)

/-- The messages of a number, one after another up to an error. -/
def takeMessages (seq : ℤ) : Device × ℤ → List Message → Device × ℤ
  | r, [] => r
  | r, m :: ms =>
      if m.seq ≠ seq then takeMessages seq r ms
      else if m.body.type = nlmsgError ∨ m.body.type = nlmsgOverrun then r
      else takeMessages seq (takeBody system r.1 m.body) ms

end Replies

/-! ## Reading what is well formed -/

section Bytes

theorem le16At_le16 (x : ℤ) (post : List UInt8) : le16At (le16 x ++ post) 0 = x % 65536 := by
  have h₀ : byteAt (le16 x ++ post) 0 = x % 256 := byteVal_byteOf _
  have h₁ : byteAt (le16 x ++ post) 1 = x / 256 % 256 := byteVal_byteOf _
  rw [le16At, h₀, h₁]
  omega

theorem le32At_le32 (x : ℤ) (post : List UInt8) : le32At (le32 x ++ post) 0 = x % 4294967296 := by
  have hhigh : le16At (le32 x ++ post) 2 = x / 65536 % 65536 :=
    (le16At_drop (le32 x ++ post) 2 0).symm.trans (le16At_le16 (x / 65536) post)
  rw [le32At, hhigh, le32, List.append_assoc, le16At_le16]
  omega

theorem le32At_drop (buf : List UInt8) (n i : ℕ) : le32At (buf.drop n) i = le32At buf (n + i) := by
  rw [le32At, le32At, le16At_drop, le16At_drop, Nat.add_assoc]

theorem le32At_append {data : List UInt8} (h : 4 ≤ data.length) (post : List UInt8) :
    le32At (data ++ post) 0 = le32At data 0 := by
  have hagree : Agree 4 (data ++ post) data := List.take_append_of_le_length h
  rw [le32At, le32At, hagree.le16At (by decide), hagree.le16At (by decide)]

theorem le_align4 (n : ℕ) : n ≤ align4 n := by
  unfold align4
  omega

theorem align4_add {k : ℕ} (hk : k % 4 = 0) (n : ℕ) : align4 (k + n) = k + align4 n := by
  unfold align4
  omega

/-- There are no more records than bytes. -/
theorem length_le_flatMap {α : Type} {f : α → List UInt8} {l : List α}
    (h : ∀ a ∈ l, 0 < (f a).length) : l.length ≤ (l.flatMap f).length := by
  induction l with
  | nil => exact Nat.zero_le _
  | cons a l ih =>
    have hfirst := h a List.mem_cons_self
    have hrest := ih fun b hb => h b (List.mem_cons_of_mem a hb)
    rw [List.length_cons, List.flatMap_cons, List.length_append]
    omega

end Bytes

section Attributes
variable {system} {device : Device} {as : List Attribute}

theorem Attribute.length_bytes (a : Attribute) : a.bytes.length = align4 (4 + a.data.length) := by
  have halign : align4 (4 + a.data.length) = 4 + align4 a.data.length := align4_add rfl _
  have hle := le_align4 a.data.length
  have hfour : ∀ x y, (le16 x ++ le16 y).length = 4 := fun _ _ => rfl
  rw [Attribute.bytes, attributeBytes, List.length_append, List.length_append, hfour,
    List.length_replicate]
  omega

theorem Attribute.length_pos (a : Attribute) : 0 < a.bytes.length := by
  have hle := le_align4 (4 + a.data.length)
  rw [a.length_bytes]
  omega

/-- What the loop reads of an attribute. -/
structure ReadsAttribute (a : Attribute) (mem post : List UInt8) : Prop where
  length : a.bytes.length ≤ mem.length
  rtaLen : (le16At mem 0).toNat = 4 + a.data.length
  type : le16At mem 2 = a.type
  oif : a.type = rtaOif → i32 (le32At mem 4) = a.oif
  next : mem.drop a.bytes.length = post

theorem readsAttribute (a : Attribute) (post : List UInt8) :
    ReadsAttribute a (a.bytes ++ post) post := by
  have hrange := a.type_range
  have hfits := a.data_fits
  obtain ⟨pad, hmem⟩ : ∃ pad : List UInt8, a.bytes ++ post =
      le16 (4 + a.data.length) ++ (le16 a.type ++ (a.data ++ pad)) := by
    refine ⟨List.replicate (align4 a.data.length - a.data.length) 0 ++ post, ?_⟩
    simp only [Attribute.bytes, attributeBytes, List.append_assoc]
  have hsecond : le16At (a.bytes ++ post) 2 = a.type := by
    have hdrop := le16At_drop (a.bytes ++ post) 2 0
    rw [hmem] at hdrop
    rw [hmem, ← hdrop]
    refine (le16At_le16 a.type (a.data ++ pad)).trans ?_
    omega
  have hdata : a.type = rtaOif → i32 (le32At (a.bytes ++ post) 4) = a.oif := by
    intro hoif
    have hdrop := le32At_drop (a.bytes ++ post) 4 0
    rw [hmem] at hdrop
    rw [hmem, ← hdrop]
    exact congrArg i32 (le32At_append (a.oif_fits hoif) pad)
  exact
    { length := by rw [List.length_append]; omega
      rtaLen := by rw [hmem, le16At_le16]; omega
      type := hsecond
      oif := hdata
      next := List.drop_left }

/-- The loop takes the attributes one after another. -/
theorem attributeLoop_bytes {fuel : ℕ} (hfuel : as.length < fuel) (post : List UInt8)
    (hlen : (as.flatMap Attribute.bytes).length < 65536) :
    attributeLoop system fuel device (as.flatMap Attribute.bytes).length
      (as.flatMap Attribute.bytes ++ post) = some (takeAttributes system device as) := by
  induction as generalizing fuel device with
  | nil =>
    obtain ⟨fuel, rfl⟩ := Nat.exists_eq_add_of_lt hfuel
    rfl
  | cons a as ih =>
    obtain _ | fuel := fuel
    · cases hfuel
    rw [List.flatMap_cons, List.length_append] at hlen
    rw [List.flatMap_cons, List.length_append, List.append_assoc]
    have hread := readsAttribute a (as.flatMap Attribute.bytes ++ post)
    have hbytes := a.length_bytes
    have hle := le_align4 (4 + a.data.length)
    have hmem := hread.length
    have hnext : (a.bytes.length + (as.flatMap Attribute.bytes).length + 65536 -
        align4 (4 + a.data.length)) % 65536 = (as.flatMap Attribute.bytes).length := by
      omega
    have hrest : ∀ device, attributeLoop system fuel device (as.flatMap Attribute.bytes).length
        (as.flatMap Attribute.bytes ++ post) = some (takeAttributes system device as) := by
      intro device
      exact ih (by simpa using hfuel) (by omega)
    generalize a.bytes ++ (as.flatMap Attribute.bytes ++ post) = mem at hread hmem ⊢
    have hdrop : mem.drop (align4 (4 + a.data.length)) = as.flatMap Attribute.bytes ++ post := by
      rw [← hbytes]
      exact hread.next
    unfold attributeLoop takeAttributes
    rw [if_neg (by omega), if_neg (by omega), hread.rtaLen, hread.type]
    dsimp only
    rw [if_neg (by omega), if_neg (by omega), hnext, hdrop]
    by_cases hoif : a.type = rtaOif
    · have hdata := a.oif_fits hoif
      rw [if_pos hoif, if_pos hoif, if_neg (by omega), hread.oif hoif]
      cases system.ifIndextoname a.oif with
      | none => rfl
      | some name => exact hrest _
    · rw [if_neg hoif, if_neg hoif]
      exact hrest _

end Attributes

section Messages
variable {system} {device : Device} {ms : List Message}

theorem Message.length_bytes (m : Message) :
    m.bytes.length = align4 (nlmsgHdrlen + m.body.bytes.length) := by
  have halign : align4 (16 + m.body.bytes.length) = 16 + align4 m.body.bytes.length := align4_add rfl _
  have hle := le_align4 m.body.bytes.length
  have hheader : ∀ n type flags seq pid,
      (le32 n ++ le16 type ++ le16 flags ++ le32 seq ++ le32 pid).length = 16 := fun _ _ _ _ _ => rfl
  rw [Message.bytes, messageBytes, List.length_append, List.length_append, hheader,
    List.length_replicate, nlmsgHdrlen]
  omega

theorem Body.type_range (b : Body) : 0 ≤ b.type ∧ b.type < 65536 := by
  cases b with
  | route => exact ⟨Int.natCast_nonneg 24, Int.ofNat_lt.mpr (by decide)⟩
  | other type range => exact range

theorem Message.length_pos (m : Message) : 0 < m.bytes.length := by
  have hle := le_align4 (nlmsgHdrlen + m.body.bytes.length)
  rw [m.length_bytes]
  rw [nlmsgHdrlen] at hle ⊢
  omega

/-- What the loop reads of a message. -/
structure ReadsMessage (m : Message) (mem post : List UInt8) : Prop where
  length : m.bytes.length ≤ mem.length
  size : le32At mem 0 = nlmsgHdrlen + m.body.bytes.length
  type : le16At mem 4 = m.body.type
  seq : le32At mem 8 = m.seq
  body : ∃ pad, mem.drop nlmsgHdrlen = m.body.bytes ++ pad
  next : mem.drop m.bytes.length = post

theorem readsMessage (m : Message) (post : List UInt8) (hsize : m.bytes.length < 65536) :
    ReadsMessage m (m.bytes ++ post) post := by
  have hseq := m.seq_range
  have htype := m.body.type_range
  have hle := le_align4 (nlmsgHdrlen + m.body.bytes.length)
  rw [m.length_bytes] at hsize
  obtain ⟨pad, hmem⟩ : ∃ pad : List UInt8, m.bytes ++ post =
      le32 (nlmsgHdrlen + m.body.bytes.length) ++ (le16 m.body.type ++ (le16 m.flags ++
        (le32 m.seq ++ (le32 0 ++ (m.body.bytes ++ pad))))) := by
    refine ⟨List.replicate (align4 m.body.bytes.length - m.body.bytes.length) 0 ++ post, ?_⟩
    simp only [Message.bytes, messageBytes, List.append_assoc]
  have hfour := le16At_drop (m.bytes ++ post) 4 0
  have height := le32At_drop (m.bytes ++ post) 8 0
  rw [hmem] at hfour height
  exact
    { length := by rw [List.length_append]; omega
      size := by
        rw [hmem, le32At_le32]
        omega
      type := by
        rw [hmem, ← hfour]
        refine (le16At_le16 m.body.type _).trans ?_
        omega
      seq := by
        rw [hmem, ← height]
        refine (le32At_le32 m.seq _).trans ?_
        omega
      body := ⟨pad, by rw [hmem]; rfl⟩
      next := List.drop_left }

theorem takeBody_done {body : Body} (h : body.type = nlmsgDone) :
    takeBody system device body = (device, 0) := by
  cases body with
  | route => cases h
  | other type range ne bytes => exact if_pos h

/-- What `outgoing_device` makes of a message that is neither the end nor an error. -/
theorem outgoingDevice_body {m : Message} {mem post : List UInt8} (h : ReadsMessage m mem post)
    (hsize : m.bytes.length < 65536) (hdone : m.body.type ≠ nlmsgDone) :
    outgoingDevice system device mem = some (takeBody system device m.body) := by
  obtain ⟨pad, hpad⟩ := h.body
  have hread := h.size
  have htype := h.type
  have hlength := h.length
  have hle := le_align4 (nlmsgHdrlen + m.body.bytes.length)
  rw [m.length_bytes] at hsize hlength
  unfold outgoingDevice
  rw [htype]
  generalize hbody : m.body = body at hpad hread hdone hsize hlength hle ⊢
  cases body with
  | other type range ne bytes =>
    have htake : takeBody system device (.other type range ne bytes) = (device, 1) := if_neg hdone
    rw [htake]
    exact if_pos ne
  | route header attributes twelve =>
    have hdrop : mem.drop routeSpace = attributes.flatMap Attribute.bytes ++ pad := by
      have hsplit : mem.drop routeSpace = (mem.drop nlmsgHdrlen).drop 12 := by
        rw [List.drop_drop]
        rfl
      rw [hsplit, hpad]
      refine (congrArg (List.drop 12) (List.append_assoc _ _ _)).trans (List.drop_left' twelve)
    have hbytes : (Body.route header attributes twelve).bytes.length =
        12 + (attributes.flatMap Attribute.bytes).length := by
      rw [Body.bytes, List.length_append, twelve]
    rw [hbytes, nlmsgHdrlen] at hsize hlength hle
    have hfew : attributes.length < mem.length + 1 := by
      have hcount := length_le_flatMap (l := attributes) fun a _ => a.length_pos
      omega
    have hlen : ((le32At mem 0 - routeSpace) % 65536).toNat =
        (attributes.flatMap Attribute.bytes).length := by
      rw [hread, hbytes, nlmsgHdrlen, routeSpace]
      omega
    rw [if_neg fun hne => hne rfl, hlen, hdrop]
    exact attributeLoop_bytes hfew pad (by omega)

/-- The loop takes the messages one after another. -/
theorem messageLoop_bytes {seq : ℤ} {fuel : ℕ} (hfuel : ms.length < fuel) (r : Device × ℤ)
    (post : List UInt8) (hlen : (ms.flatMap Message.bytes).length < 65536) :
    messageLoop system seq fuel r.1 r.2 (ms.flatMap Message.bytes).length
      (ms.flatMap Message.bytes ++ post) = some (takeMessages system seq r ms) := by
  induction ms generalizing fuel r with
  | nil =>
    obtain ⟨fuel, rfl⟩ := Nat.exists_eq_add_of_lt hfuel
    rfl
  | cons m ms ih =>
    obtain _ | fuel := fuel
    · cases hfuel
    rw [List.flatMap_cons, List.length_append] at hlen
    rw [List.flatMap_cons, List.length_append, List.append_assoc]
    have hread := readsMessage m (ms.flatMap Message.bytes ++ post) (by omega)
    have hbytes := m.length_bytes
    have hle := le_align4 (nlmsgHdrlen + m.body.bytes.length)
    have hmem := hread.length
    have hrest : ∀ r : Device × ℤ, messageLoop system seq fuel r.1 r.2
        (ms.flatMap Message.bytes).length (ms.flatMap Message.bytes ++ post) =
          some (takeMessages system seq r ms) := by
      intro r
      exact ih (by simpa using hfuel) r (by omega)
    generalize m.bytes ++ (ms.flatMap Message.bytes ++ post) = mem at hread hmem ⊢
    have hsize : (le32At mem 0).toNat = nlmsgHdrlen + m.body.bytes.length := by
      rw [hread.size]
      omega
    have hdrop : mem.drop (align4 (nlmsgHdrlen + m.body.bytes.length)) =
        ms.flatMap Message.bytes ++ post := by
      rw [← hbytes]
      exact hread.next
    have hnext : ((m.bytes.length + (ms.flatMap Message.bytes).length : ℕ) : ℤ) -
        align4 (nlmsgHdrlen + m.body.bytes.length) = (ms.flatMap Message.bytes).length := by
      omega
    unfold messageLoop takeMessages
    rw [if_neg (by omega), if_neg (by omega), hsize, hread.type, hread.seq]
    dsimp only
    rw [hnext, hdrop, if_neg (by omega)]
    by_cases hseq : m.seq = seq
    · rw [if_neg (not_not.mpr hseq), if_neg (not_not.mpr hseq)]
      by_cases herror : m.body.type = nlmsgError ∨ m.body.type = nlmsgOverrun
      · rw [if_pos herror, if_pos herror]
      · rw [if_neg herror, if_neg herror]
        by_cases hdone : m.body.type = nlmsgDone
        · rw [if_pos hdone, takeBody_done hdone]
          exact hrest (r.1, 0)
        · rw [if_neg hdone, outgoingDevice_body hread (by omega) hdone]
          exact hrest _
    · rw [if_pos hseq, if_pos hseq]
      exact hrest r

end Messages

/-- A well-formed reply that fits the buffer is read as what it is made of. -/
theorem guessDevice_reply {system : System} {device : Device} {gdst : InAddr} {ms : List Message}
    (hroute : system.route (routeQuery gdst) = some (ms.flatMap Message.bytes))
    (hfit : (ms.flatMap Message.bytes).length ≤ bufferSize) :
    guessDevice system device gdst =
      some (if (takeMessages system 1 (device, 1) ms).2 ≠ 0 then .error { status := 1 }
        else .ok (takeMessages system 1 (device, 1) ms).1) := by
  have hcount := length_le_flatMap (l := ms) fun m _ => m.length_pos
  have hstore : ∀ buffer, store buffer 0 (ms.flatMap Message.bytes) =
      ms.flatMap Message.bytes ++ buffer.drop (ms.flatMap Message.bytes).length := by
    intro buffer
    rw [store, List.take_zero, List.nil_append, Nat.zero_add]
  have htake := List.take_of_length_le hfit
  rw [bufferSize] at hfit
  unfold guessDevice netlinkQuery
  rw [hroute]
  dsimp only
  rw [htake, hstore, messageLoop_bytes (by rw [bufferSize]; omega) (device, 1) _ (by omega)]
  rfl

/-- A reply with one message, whose route leaves by interface 2. -/
def sampleReply : Message where
  seq := 1
  flags := 0
  body := .route (List.replicate 12 0)
    [⟨rtaDst, [10, 0, 0, 9], by decide, by decide, fun h => absurd h (by decide)⟩,
      ⟨rtaOif, [2, 0, 0, 0], by decide, by decide, fun _ => by decide⟩] rfl
  seq_range := by decide

def sampleSystem : System where
  route := fun _ => some ([sampleReply].flatMap Message.bytes)
  ifIndextoname := fun i => if i = 2 then some "eth0".toList else none
  ifNametoindex := fun name => if name = "eth0".toList then 2 else 0
  getifaddrs := some []

theorem takeMessages_sample :
    takeMessages sampleSystem 1 (⟨none, none, 0⟩, 1) [sampleReply] =
      (⟨some "eth0".toList, none, 2⟩, 0) := by
  decide +kernel

theorem length_sample : ([sampleReply].flatMap Message.bytes).length ≤ bufferSize := by
  decide +kernel

theorem guessDevice_reply_eth :
    guessDevice sampleSystem ⟨none, none, 0⟩ ⟨[10, 0, 0, 9], rfl⟩ =
      some (.ok ⟨some "eth0".toList, none, 2⟩) := by
  have hreply : guessDevice sampleSystem ⟨none, none, 0⟩ ⟨[10, 0, 0, 9], rfl⟩ =
      some (if (takeMessages sampleSystem 1 (⟨none, none, 0⟩, 1) [sampleReply]).2 ≠ 0 then _ else _) :=
    guessDevice_reply rfl length_sample
  rwa [takeMessages_sample, if_neg (by decide)] at hreply

end Iputils.RouteReplies
