import Iputils.MockBridge

/-!
# Messages on the link

What the two parties make of each other's objects: how long they are, which characters they
have, that they come out of the connection as they went in, and that the mock finds in a
request what the client has put there.
-/
set_option autoImplicit false

namespace Iputils.LinkMessages
open BraceFraming BridgeFields BridgeBytes EciesEnvelope LinkTranscript LinkClient MockBridge
open PrintfText ScanText QuotedWords

instance decidableForallMem {p : Char → Prop} [DecidablePred p] (s : List Char) : Decidable (∀ c ∈ s, p c) :=
  List.decidableBAll p s

section Objects
variable {p : Char → Prop} {c : Char} {fs : List Field}

/-- The value of a field without quotes around it. -/
def content : FieldValue → List Char
  | .text s => s
  | .bare t => t

/-- The characters between the keys and the values. -/
def marks : List Char := ['\x7b', '\x7d', '"', ':', ',']

theorem weave_cons (f : Field) (fs : List Field) : weave (wordsOf (f :: fs)) =
    quoted f.key ++ ':' :: f.value.render ++ sepOf fs ++ weave (wordsOf fs) := by
  rw [wordsOf_cons, weave_append, weave_words]

theorem forall_quoted {s : List Char} (hquote : p '"') (hs : ∀ c ∈ s, p c) :
    ∀ c ∈ quoted s, p c := by
  intro c hc
  rcases List.mem_cons.mp hc with rfl | hc
  · exact hquote
  · rcases List.mem_append.mp hc with hc | hc
    · exact hs c hc
    · rw [List.mem_singleton.mp hc]
      exact hquote

theorem forall_render {v : FieldValue} (hquote : p '"') (hv : ∀ c ∈ content v, p c) :
    ∀ c ∈ v.render, p c := by
  cases v with
  | text s => exact forall_quoted hquote hv
  | bare t => exact hv

/-- A property of all characters of an object. -/
theorem forall_objectOf (hmarks : ∀ c ∈ marks, p c)
    (hfs : ∀ f ∈ fs, (∀ c ∈ f.key, p c) ∧ ∀ c ∈ content f.value, p c) :
    ∀ c ∈ objectOf fs, p c := by
  have hweave : ∀ c ∈ weave (wordsOf fs), p c := by
    induction fs with
    | nil => simp [wordsOf, weave]
    | cons f fs ih =>
        obtain ⟨hkey, hvalue⟩ := hfs f List.mem_cons_self
        have hquote : p '"' := hmarks _ (by decide)
        have hsep : ∀ c ∈ sepOf fs, p c := by
          rcases sepOf_cases fs with h | h
          · rw [h]
            simpa using hmarks ',' (by decide)
          · rw [h]
            simpa using hmarks '\x7d' (by decide)
        intro c hc
        rw [weave_cons] at hc
        simp only [List.mem_append, List.mem_cons] at hc
        rcases hc with ((hc | rfl | hc) | hc) | hc
        · exact forall_quoted hquote hkey c hc
        · exact hmarks _ (by decide)
        · exact forall_render hquote hvalue c hc
        · exact hsep c hc
        · exact ih (fun g hg => hfs g (List.mem_cons_of_mem f hg)) c hc
  intro c hc
  rcases List.mem_cons.mp hc with rfl | hc
  · exact hmarks _ (by decide)
  · exact hweave c hc

/-- The characters of a field with its marks. -/
def size (f : Field) : ℕ := f.key.length + f.value.render.length + 4

theorem length_objectOf (fs : List Field) : (objectOf fs).length = 1 + (fs.map size).sum := by
  have hweave : (weave (wordsOf fs)).length = (fs.map size).sum := by
    induction fs with
    | nil => rfl
    | cons f fs ih =>
        have hsep : (sepOf fs).length = 1 := by
          rcases sepOf_cases fs with h | h <;> rw [h] <;> rfl
        rw [weave_cons, List.map_cons, List.sum_cons, ← ih]
        simp only [List.length_append, List.length_cons, List.length_nil, quoted, hsep, size]
        omega
  rw [objectOf, List.length_cons, hweave, Nat.add_comm]

theorem count_render {v : FieldValue} (hc : c ≠ '"') :
    v.render.count c = (content v).count c := by
  cases v with
  | text s => simp [FieldValue.render, content, quoted, hc.symm]
  | bare t => rfl

/-- How often a character occurs that is no mark. -/
theorem count_objectOf (hc : c ∉ marks) (fs : List Field) :
    (objectOf fs).count c = (fs.map fun f => f.key.count c + (content f.value).count c).sum := by
  simp only [marks, List.mem_cons, List.not_mem_nil, or_false, not_or] at hc
  obtain ⟨hopen, hclose, hquote, hcolon, hcomma⟩ := hc
  have hweave : (weave (wordsOf fs)).count c =
      (fs.map fun f => f.key.count c + (content f.value).count c).sum := by
    induction fs with
    | nil => rfl
    | cons f fs ih =>
        have hsep : (sepOf fs).count c = 0 := by
          rcases sepOf_cases fs with h | h
          · rw [h]
            simp [Ne.symm hcomma]
          · rw [h]
            simp [Ne.symm hclose]
        rw [weave_cons, List.map_cons, List.sum_cons, ← ih]
        simp only [List.count_append, List.count_cons, count_render hquote, hsep, quoted]
        simp [Ne.symm hquote, Ne.symm hcolon]
  rw [objectOf, List.count_cons, hweave]
  simp [Ne.symm hopen]

end Objects

section Search
variable {pattern s : List Char}

/-- A pattern that has a character more often than the text is not found. -/
theorem strstr_count {c : Char} (h : s.count c < pattern.count c) : strstr pattern s = none := by
  cases hfind : strstr pattern s with
  | none => rfl
  | some t =>
      obtain ⟨hfront, hsuffix⟩ := strstr_some hfind
      have hle := (hfront.sublist.count_le c).trans (hsuffix.sublist.count_le c)
      omega

theorem strstr_inside (h : pattern <:+: s) : strstr pattern s ≠ none := by
  induction s with
  | nil =>
      obtain rfl := List.infix_nil.mp h
      simp [strstr]
  | cons c s ih =>
      rw [strstr]
      split_ifs with hfront
      · simp
      · rcases List.infix_cons_iff.mp h with h | h
        · exact absurd h hfront
        · exact ih h

end Search

section Fields
variable {key s : List Char} {before : List Field} {cap : ℕ}

/-- The mock reads a string that needs no escapes as it is. -/
theorem mockFieldStr_field (hkey : Key key) (hs : Bland s) (hplain : ∀ f ∈ before, f.Plain)
    (hother : ∀ f ∈ before, f.Other key) (hlen : s.length < cap) (after : List Field) :
    mockFieldStr (objectOf (before ++ ⟨key, .text s⟩ :: after)) key cap = some s := by
  have hself : Field.Plain ⟨key, .text s⟩ := plain_text hkey.quote fun h => (hs _ h).1 rfl
  obtain ⟨rest, hrest⟩ := valueOn_text s after
  have htake : (s ++ '"' :: rest).takeWhile (fun c => decide (c ≠ '"')) = s := by
    rw [List.takeWhile_append_of_pos fun c hc => by simpa using (hs c hc).1]
    simp
  have hcut : s.take (cap - 1) = s := List.take_of_length_le (by omega)
  rw [mockFieldStr, jsonLocate_field hkey hplain hself hother, hrest]
  simp only [htake, hcut, List.drop_left, List.head?_cons, if_true]

theorem encode_length_ne {bs : List UInt8} {k : List Char} (h : k.length % 4 ≠ 0) :
    Base64.encode bs ≠ k := by
  rintro rfl
  rw [Base64.length_encode] at h
  omega

theorem encode_no_underscore (bs : List UInt8) : (Base64.encode bs).count '_' = 0 := by
  rw [List.count_eq_zero]
  intro h
  rcases Base64.mem_encode h with h | ⟨n, hn⟩
  · cases h
  · revert hn
    revert n
    decide +kernel

end Fields

section Channel
variable {Point S : Type} {c : Crypto Point} {evp : Evp} {t json resp : List Char}

/-- A text that the reader of a connection takes as one object, and a copy as a whole. -/
structure Whole (t : List Char) : Prop where
  read : ∀ rest, readUntilBrace (16 * 1024) (t.map .byte ++ rest) = .object t rest
  copied : cString t = t

theorem copied_of_forall (h : ∀ c ∈ t, c ≠ '\x00') : cString t = t :=
  List.takeWhile_eq_self_iff.mpr fun c hc => by simpa using h c hc

/-- A string that can be sent as it is. -/
def Tame (s : List Char) : Prop := ∀ c ∈ s, c ≠ '"' ∧ c ≠ '\\' ∧ c ≠ '\x00'

/-- A field that can be sent as it is. -/
structure Sendable (f : Field) : Prop extends Framed f where
  null : (∀ c ∈ f.key, c ≠ '\x00') ∧ ∀ c ∈ content f.value, c ≠ '\x00'

theorem Tame.bland {s : List Char} (h : Tame s) : Bland s := fun c hc => ⟨(h c hc).1, (h c hc).2.1⟩

theorem sendable_text {k s : List Char} (hk : Tame k) (hs : Tame s) : Sendable ⟨k, .text s⟩ where
  key := hk.bland
  text _ h := by
    cases h
    exact hs.bland
  bare _ h := by cases h
  null := ⟨fun c hc => (hk c hc).2.2, fun c hc => (hs c hc).2.2⟩

theorem sendable_bare {k t : List Char} (hk : Tame k) (ht : ∀ c ∈ t, Plain c ∧ c ≠ '\x00') :
    Sendable ⟨k, .bare t⟩ where
  key := hk.bland
  text _ h := by cases h
  bare _ h := by
    cases h
    exact neutral_plain fun c hc => (ht c hc).1
  null := ⟨fun c hc => (hk c hc).2.2, fun c hc => (ht c hc).2⟩

theorem sendable_object {k : List Char} (hk : Tame k) {f : Field} {fs : List Field}
    (hfs : ∀ g ∈ f :: fs, Sendable g) : Sendable ⟨k, .bare (objectOf (f :: fs))⟩ where
  key := hk.bland
  text _ h := by cases h
  bare _ h := by
    cases h
    exact neutral_objectOf fun g hg => (hfs g hg).toFramed
  null := ⟨fun c hc => (hk c hc).2.2,
    forall_objectOf (by decide) fun g hg => (hfs g hg).null⟩

theorem whole_objectOf {f : Field} {fs : List Field} (hfs : ∀ g ∈ f :: fs, Sendable g)
    (hlen : (objectOf (f :: fs)).length < 16 * 1024) : Whole (objectOf (f :: fs)) :=
  ⟨read_objectOf (fun g hg => (hfs g hg).toFramed) hlen,
    copied_of_forall (forall_objectOf (by decide) fun g hg => (hfs g hg).null)⟩

theorem serveConnection_nil (fuel : ℕ) (m : Mock) :
    serveConnection c evp fuel m [] = ({ m with unread := [] }, []) := by
  cases fuel with
  | zero => rfl
  | succ fuel => rfl

/-- The mock answers one object with one object. -/
theorem answer_mock {m m' : Mock} (hm : m.unread = []) (hjson : Whole json)
    (hhandle : handle c evp m json = (m', some resp)) :
    (mockBridge c evp).answer m json = ({ m' with unread := [] }, some (resp.map .byte)) := by
  have hread : readUntilBrace (16 * 1024) (json.map .byte) = .object json [] := by
    have h := hjson.read []
    rwa [List.append_nil] at h
  simp only [mockBridge, hm, List.nil_append, serveConnection, hread, hjson.copied, hhandle,
    serveConnection_nil, List.append_nil]

/-- Nothing is unread on either side, and a connection can be made. -/
structure Linked (w : World Mock S) : Prop where
  fd : w.client.fd = some [] ∨ w.client.fd = none ∧ w.client.socketPath.length < 108
  unread : w.bridge.unread = []

/-- An exchange with the mock. -/
theorem send_mock (c : Crypto Point) (evp : Evp) {w : World Mock S} (hw : Linked w) {m' : Mock} (hjson : Whole json)
    (hhandle : handle c evp w.bridge json = (m', some resp)) (hresp : Whole resp) :
    blSendRequest (mockBridge c evp) w json =
      ({ w with client := { w.client with fd := some [] }, bridge := { m' with unread := [] } },
        .ok resp) := by
  have hconnect : blConnect (mockBridge c evp) w =
      ({ w with client := { w.client with fd := some [] } }, none) := by
    obtain ⟨client, bridge, store⟩ := w
    obtain ⟨secpPriv, secpPub, p256Priv, p256Pub, unread, draws⟩ := bridge
    obtain ⟨path, name, version, ttl, fd, session, pin, err⟩ := client
    obtain rfl : unread = [] := hw.unread
    rcases hw.fd with hfd | ⟨hfd, hpath⟩
    · obtain rfl : fd = some [] := hfd
      rfl
    · obtain rfl : fd = none := hfd
      have hpath' : ¬ path.length ≥ 108 := not_le.mpr hpath
      simp only [blConnect, Option.isSome_none, Bool.false_eq_true, if_false, hpath', mockBridge,
        if_true]
  have hread : readUntilBrace (16 * 1024) (resp.map .byte) = .object resp [] := by
    have h := hresp.read []
    rwa [List.append_nil] at h
  unfold blSendRequest
  rw [hconnect]
  simp only [answer_mock hw.unread hjson hhandle, Option.getD_some, List.nil_append, hread,
    hresp.copied]

end Channel

section Messages
variable {Point S : Type} {c : Crypto Point} {evp : Evp} {k s t : List Char} {fs : List Field}

instance decidableTame (s : List Char) : Decidable (Tame s) :=
  List.decidableBAll (fun c => c ≠ '"' ∧ c ≠ '\\' ∧ c ≠ '\x00') s

theorem other_text {key : List Char} (hk : k ≠ key) (hs : s ≠ key) :
    Field.Other key ⟨k, .text s⟩ :=
  ⟨hk, fun h => hs (FieldValue.text.inj h)⟩

theorem other_bare {key : List Char} (hk : k ≠ key) : Field.Other key ⟨k, .bare t⟩ :=
  ⟨hk, by simp⟩

/-- An object without the key of an error is no refusal. -/
theorem captureBridgeError_none (hplain : ∀ f ∈ fs, f.Plain)
    (hother : ∀ f ∈ fs, f.Other "error".toList) : captureBridgeError (objectOf fs) = none := by
  have hkey : Key "error".toList := key_letters (by decide)
  obtain ⟨ps, hps, hwoven, hne⟩ := words_past hkey [] hplain hother
  rw [wordsOf, List.append_nil, List.append_nil] at hps
  have habsent : strstr (quoted "error".toList) (objectOf fs) = none := by
    rw [objectOf, hps]
    exact (strstr_skip (s := ['\x7b']) (by decide) _).trans (strstr_absent hkey.quote hwoven hne)
  exact if_pos habsent

theorem tame_encode (bs : List UInt8) : Tame (Base64.encode bs) := by
  intro c hc
  obtain ⟨hquote, hback, hlow⟩ := Base64.encode_plain hc
  refine ⟨hquote, hback, ?_⟩
  rintro rfl
  exact absurd hlow (by decide)

/-- The answer to a question for a key. -/
def keyFields (pub65 : List.Vector UInt8 65) : List Field :=
  [⟨"ok".toList, .bare "true".toList⟩,
    ⟨"publicKey".toList, .text (Base64.encode pub65.toList)⟩]

theorem handleGetPublicKey_eq (hevp : evp.Rfc4648) (pub65 : List.Vector UInt8 65) :
    handleGetPublicKey evp pub65 = objectOf (keyFields pub65) := by
  have hfits : blcB64encode evp pub65.toList 128 = some (Base64.encode pub65.toList) :=
    blcB64encode_fits hevp (by rw [pub65.toList_length]; decide)
  simp only [handleGetPublicKey, hfits, Option.getD_some, keyFields]

theorem plain_ok : Field.Plain ⟨"ok".toList, .bare "true".toList⟩ :=
  plain_bare (by decide) (by decide) (by simp [JsonText.isWs])

theorem plain_encode (hk : '"' ∉ k) (bs : List UInt8) :
    Field.Plain ⟨k, .text (Base64.encode bs)⟩ :=
  plain_text hk fun h => (encode_bland bs _ h).1 rfl

theorem sendable_ok : Sendable ⟨"ok".toList, .bare "true".toList⟩ :=
  sendable_bare (by decide) (by decide)

theorem sendable_encode (hk : Tame k) (bs : List UInt8) :
    Sendable ⟨k, .text (Base64.encode bs)⟩ :=
  sendable_text hk (tame_encode bs)

theorem whole_keyFields (pub65 : List.Vector UInt8 65) : Whole (objectOf (keyFields pub65)) := by
  have hlen : (Base64.encode pub65.toList).length = 88 := by
    rw [Base64.length_encode, pub65.toList_length]
  refine whole_objectOf ?_ ?_
  · rw [List.forall_mem_cons, List.forall_mem_singleton]
    exact ⟨sendable_ok, sendable_encode (by decide) _⟩
  · rw [length_objectOf]
    simp only [List.map_cons, List.map_nil, List.sum_cons, List.sum_nil, size, FieldValue.render,
      quoted, List.length_cons, List.length_append, List.length_nil, hlen]
    decide

theorem pubkeyOf_toList {pub65 : List.Vector UInt8 65} (h : pub65.head = 0x04) :
    pubkeyOf pub65.toList = some pub65 := by
  obtain ⟨l, hl⟩ := pub65
  cases l with
  | nil => cases hl
  | cons b l =>
      obtain rfl : b = 0x04 := h
      exact (dif_pos hl).trans (if_pos rfl)

/-- The client gets the key that the mock sends. -/
theorem fetch_mock (hevp : evp.Rfc4648) {w : World Mock S} (hw : Linked w) {json : List Char}
    {pub65 : List.Vector UInt8 65} (hpub : pub65.head = 0x04) (hjson : Whole json)
    (hhandle : handle c evp w.bridge json = (w.bridge, some (handleGetPublicKey evp pub65))) :
    fetchPubkey (mockBridge c evp) evp w json =
      ({ w with client := { w.client with fd := some [] } }, .ok pub65) := by
  have hbridge : { w.bridge with unread := [] } = w.bridge := by rw [← hw.unread]
  rw [handleGetPublicKey_eq hevp] at hhandle
  have herror : captureBridgeError (objectOf (keyFields pub65)) = none := by
    refine captureBridgeError_none ?_ ?_
    · rw [keyFields, List.forall_mem_cons, List.forall_mem_singleton]
      exact ⟨plain_ok, plain_encode (by decide) _⟩
    · rw [keyFields, List.forall_mem_cons, List.forall_mem_singleton]
      exact ⟨other_bare (by decide), other_text (by decide) (encode_length_ne (by decide))⟩
  have hfield : jsonFieldB64 evp (objectOf (keyFields pub65)) "publicKey".toList 65 =
      some pub65.toList := by
    have hplain : ∀ f ∈ [(⟨"ok".toList, .bare "true".toList⟩ : Field)], f.Plain :=
      List.forall_mem_singleton.mpr plain_ok
    refine bytes_found hevp (key_letters (by decide)) hplain ?_ [] ?_
    · rw [List.forall_mem_singleton]
      decide
    · rw [pub65.toList_length]
      exact ⟨by decide, le_rfl, by simp⟩
  unfold fetchPubkey
  rw [send_mock c evp hw hjson hhandle (whole_keyFields pub65)]
  simp only [herror, hfield, Option.bind_some, pubkeyOf_toList hpub, hbridge]

theorem whole_command {cmd : List Char} (h : Tame cmd ∧ cmd.length ≤ 100) :
    Whole (commandJson cmd) := by
  obtain ⟨htame, hlen⟩ := h
  refine whole_objectOf ?_ ?_
  · rw [List.forall_mem_singleton]
    exact sendable_text (by decide) htame
  · rw [length_objectOf]
    have hcmd : "cmd".toList.length = 3 := by decide
    simp only [List.map_cons, List.map_nil, List.sum_cons, List.sum_nil, size, FieldValue.render,
      quoted, List.length_cons, List.length_append, List.length_nil, hcmd]
    omega

theorem handle_getPublicKey (m : Mock) :
    handle c evp m (commandJson "GET_PUBLIC_KEY".toList) =
      (m, some (handleGetPublicKey evp m.secpPub65)) :=
  if_pos (by decide +kernel)

theorem handle_getEnclavePublicKey (m : Mock) :
    handle c evp m (commandJson "GET_ENCLAVE_PUBLIC_KEY".toList) =
      (m, some (handleGetPublicKey evp m.p256Pub65)) := by
  have hfirst : ¬ (strstr "GET_PUBLIC_KEY".toList
      (commandJson "GET_ENCLAVE_PUBLIC_KEY".toList) ≠ none ∧
      strstr "ENCLAVE".toList (commandJson "GET_ENCLAVE_PUBLIC_KEY".toList) = none) := by
    decide +kernel
  exact (if_neg hfirst).trans (if_pos (by decide +kernel))

end Messages

end Iputils.LinkMessages
