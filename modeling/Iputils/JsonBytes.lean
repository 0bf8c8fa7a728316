import Iputils.JsonReading
import Iputils.Utf8Text

/-!
# JSON lines as bytes

Strings come from outside as bytes, and a line is JSON only if its bytes are the UTF-8
encoding of a text that is. An object in which all strings stand as they are is read
back exactly if each of them is the encoding of a clean text.
-/
set_option autoImplicit false

namespace Iputils.JsonBytes
open PrintfText JsonText JsonReading Utf8Text

section Objects

/-- Bytes that are a clean text. -/
def CleanBytes (v : List UInt8) : Prop := ∃ s, utf8 s = v ∧ Clean s

/-- A key as programs write it. -/
structure Key where
  text : List Char
  clean : Clean text
  ascii : ∀ c ∈ text, Ascii c

inductive ByteValue
  | str (v : List UInt8)
  | num (x : ℤ)
  | arr (vs : List (List UInt8))

structure ByteEntry where
  key : Key
  value : ByteValue

def quote : UInt8 := charByte '"'

def quotedBytes (v : List UInt8) : List UInt8 := quote :: (v ++ [quote])

def joinedBytes : List (List UInt8) → List UInt8
  | [] => []
  | u :: us => u ++ us.flatMap fun u => charByte ',' :: charByte ' ' :: u

def ByteValue.bytes : ByteValue → List UInt8
  | .str v => quotedBytes v
  | .num x => (decText x).map charByte
  | .arr vs => charByte '[' :: (joinedBytes (vs.map quotedBytes) ++ [charByte ']'])

/-- The key of an entry with what stands around it. -/
def Key.front (k : Key) : List Char := '"' :: (k.text ++ "\": ".toList)

def ByteEntry.bytes (e : ByteEntry) : List UInt8 := e.key.front.map charByte ++ e.value.bytes

def objectBytes (es : List ByteEntry) : List UInt8 :=
  charByte '\x7b' :: (joinedBytes (es.map ByteEntry.bytes) ++ [charByte '\x7d'])

/-- All strings of a value are clean texts. -/
def ByteValue.Clean : ByteValue → Prop
  | .str v => CleanBytes v
  | .num _ => True
  | .arr vs => ∀ v ∈ vs, CleanBytes v

/-- The value is what a reader has found. -/
def ByteValue.Reads : ByteValue → Json → Prop
  | .str v, j => ∃ s, j = .str s ∧ utf8 s = v
  | .num x, j => j = .num (decText x)
  | .arr vs, j => ∃ ss : List (List Char), j = .arr (ss.map .str) ∧ ss.map utf8 = vs

def ByteEntry.Reads (e : ByteEntry) (m : List Char × Json) : Prop :=
  m.1 = e.key.text ∧ e.value.Reads m.2

/-- The bytes of a line are a JSON text. -/
def ReadsAs (bytes : List UInt8) (j : Json) : Prop :=
  ∃ cs, utf8 cs = bytes ∧ parse cs = some j

end Objects

section Texts

/-- The same value as text. -/
def ByteValue.Decodes : ByteValue → Raw → Prop
  | .str v, .str s => utf8 s = v
  | .num x, .num y => x = y
  | .arr vs, .arr ss => ss.map utf8 = vs
  | _, _ => False

def ByteEntry.Decodes (e : ByteEntry) (f : Entry) : Prop :=
  f.key = e.key.text ∧ e.value.Decodes f.value

/-- The characters that follow a value. -/
def Delimiter (d : Char) : Prop := d = ',' ∨ d = ']' ∨ d = '\x7d'

theorem Delimiter.ascii {d : Char} (h : Delimiter d) : Ascii d := by
  obtain rfl | rfl | rfl := h <;> decide

theorem ascii_decText (x : ℤ) : ∀ c ∈ decText x, Ascii c := by
  intro c hc
  obtain rfl | hd := mem_decText hc
  · decide
  · have hle := (Char.isDigit_iff_toNat.mp hd).2
    unfold Ascii
    exact lt_of_le_of_lt hle (by decide)

theorem utf8_quoted (s : List Char) : utf8 (quoted s) = quotedBytes (utf8 s) := by
  have hquote : utf8 ['"'] = [quote] := utf8_ascii (by decide)
  unfold quoted quotedBytes
  rw [utf8_cons, utf8_append, hquote]
  rfl

theorem utf8_joined (us : List (List Char)) : utf8 (joined us) = joinedBytes (us.map utf8) := by
  cases us with
  | nil => rfl
  | cons u us =>
      unfold joined
      rw [utf8_append, List.map_cons, joinedBytes]
      congr 1
      induction us with
      | nil => rfl
      | cons v us ih =>
          rw [List.flatMap_cons, utf8_append, List.map_cons, List.flatMap_cons, ih]
          rfl

theorem ascii_front (k : Key) : ∀ c ∈ k.front, Ascii c := by
  intro c hc
  unfold Key.front at hc
  simp only [List.mem_cons, List.mem_append] at hc
  obtain rfl | hc | hc := hc
  · decide
  · exact k.ascii c hc
  · have hmark : ∀ c ∈ "\": ".toList, Ascii c := by decide
    exact hmark c hc

/-- A string ends at the next quote. -/
theorem decode_quoted {cs : List Char} {v w : List UInt8} (h : utf8 cs = quotedBytes v ++ w) :
    ∃ s cs', utf8 s = v ∧ cs = quoted s ++ cs' ∧ utf8 cs' = w := by
  have hshape : quotedBytes v ++ w = ['"'].map charByte ++ (v ++ charByte '"' :: w) := by
    simp [quotedBytes, quote]
  rw [hshape] at h
  obtain ⟨ds, rfl, hds⟩ := utf8_ascii_append (by decide) h
  obtain ⟨s, cs', rfl, hs, hcs⟩ := utf8_split (by decide) hds
  exact ⟨s, cs', hs, by simp [quoted], hcs⟩

theorem decode_char {cs : List Char} {d : Char} {w : List UInt8} (hd : Ascii d)
    (h : utf8 cs = charByte d :: w) : ∃ cs', cs = d :: cs' ∧ utf8 cs' = w := by
  obtain ⟨cs', rfl, hcs⟩ := utf8_ascii_append (s := [d]) (by simpa using hd) h
  exact ⟨cs', rfl, hcs⟩

theorem joinedBytes_cons (u v : List UInt8) (us : List (List UInt8)) :
    joinedBytes (u :: v :: us) = u ++ charByte ',' :: charByte ' ' :: joinedBytes (v :: us) := by
  simp [joinedBytes]

section Joined
variable {X Y : Type} {bytes : X → List UInt8} {text : Y → List Char} {D : X → Y → Prop}

/-- If each item can be found in front of a delimiter, all of them can. -/
theorem decode_joined
    (hone : ∀ x cs d w, Delimiter d → utf8 cs = bytes x ++ charByte d :: w →
      ∃ y cs', D x y ∧ cs = text y ++ d :: cs' ∧ utf8 cs' = w)
    {xs : List X} {cs : List Char} {d : Char} {w : List UInt8} (hd : Delimiter d)
    (h : utf8 cs = joinedBytes (xs.map bytes) ++ charByte d :: w) :
    ∃ ys cs', List.Forall₂ D xs ys ∧ cs = joined (ys.map text) ++ d :: cs' ∧ utf8 cs' = w := by
  induction xs generalizing cs with
  | nil =>
      obtain ⟨cs', rfl, hcs⟩ := decode_char hd.ascii h
      exact ⟨[], cs', .nil, rfl, hcs⟩
  | cons x xs ih =>
      cases xs with
      | nil =>
          have hshape : joinedBytes ([x].map bytes) = bytes x := by simp [joinedBytes]
          rw [hshape] at h
          obtain ⟨y, cs', hy, rfl, hcs⟩ := hone x cs d w hd h
          exact ⟨[y], cs', .cons hy .nil, by simp [joined], hcs⟩
      | cons x' xs =>
          rw [List.map_cons, List.map_cons, joinedBytes_cons, List.append_assoc] at h
          obtain ⟨y, cs', hy, rfl, hcomma⟩ := hone x cs ',' _ (.inl rfl) h
          obtain ⟨cs'', rfl, hblank⟩ := decode_char (d := ' ') (by decide) hcomma
          obtain ⟨ys, rest, hys, rfl, hrest⟩ := ih hblank
          cases hys with
          | cons hy' hys =>
              refine ⟨y :: _ :: _, rest, .cons hy (.cons hy' hys), ?_, hrest⟩
              rw [List.map_cons, List.map_cons, List.map_cons, joined_cons]
              simp

theorem encode_joined (hone : ∀ x y, D x y → utf8 (text y) = bytes x) {xs : List X} {ys : List Y}
    (h : List.Forall₂ D xs ys) : utf8 (joined (ys.map text)) = joinedBytes (xs.map bytes) := by
  have hmap : (ys.map text).map utf8 = xs.map bytes := by
    induction h with
    | nil => rfl
    | cons hy _ ih => rw [List.map_cons, List.map_cons, List.map_cons, hone _ _ hy, ih]
  rw [utf8_joined, hmap]

end Joined

theorem forall₂_utf8 {vs : List (List UInt8)} {ss : List (List Char)} :
    List.Forall₂ (fun v s => utf8 s = v) vs ss ↔ ss.map utf8 = vs := by
  constructor
  · intro h
    induction h with
    | nil => rfl
    | cons hs _ ih => rw [List.map_cons, hs, ih]
  · rintro rfl
    induction ss with
    | nil => exact .nil
    | cons s ss ih => exact .cons rfl ih

theorem decode_value (v : ByteValue) (cs : List Char) (d : Char) (w : List UInt8)
    (hd : Delimiter d) (h : utf8 cs = v.bytes ++ charByte d :: w) :
    ∃ r cs', v.Decodes r ∧ cs = r.text ++ d :: cs' ∧ utf8 cs' = w := by
  cases v with
  | str v =>
      obtain ⟨s, cs', hs, rfl, hcs⟩ := decode_quoted h
      obtain ⟨cs'', rfl, hrest⟩ := decode_char hd.ascii hcs
      exact ⟨.str s, cs'', hs, rfl, hrest⟩
  | num x =>
      obtain ⟨cs', rfl, hcs⟩ := utf8_ascii_append (ascii_decText x) h
      obtain ⟨cs'', rfl, hrest⟩ := decode_char hd.ascii hcs
      exact ⟨.num x, cs'', rfl, rfl, hrest⟩
  | arr vs =>
      have hshape : (ByteValue.arr vs).bytes ++ charByte d :: w = charByte '[' ::
          (joinedBytes (vs.map quotedBytes) ++ charByte ']' :: charByte d :: w) := by
        simp [ByteValue.bytes]
      rw [hshape] at h
      obtain ⟨cs', rfl, hcs⟩ := decode_char (d := '[') (by decide) h
      have hone : ∀ (v : List UInt8) (cs : List Char) (d : Char) (w : List UInt8), Delimiter d →
          utf8 cs = quotedBytes v ++ charByte d :: w →
          ∃ s cs', utf8 s = v ∧ cs = quoted s ++ d :: cs' ∧ utf8 cs' = w := by
        intro v cs d w hd h
        obtain ⟨s, cs', hs, rfl, hcs⟩ := decode_quoted h
        obtain ⟨cs'', rfl, hrest⟩ := decode_char hd.ascii hcs
        exact ⟨s, cs'', hs, rfl, hrest⟩
      obtain ⟨ss, behind, hss, rfl, hbehind⟩ := decode_joined hone (.inr (.inl rfl)) hcs
      obtain ⟨rest, rfl, hrest⟩ := decode_char hd.ascii hbehind
      exact ⟨.arr ss, rest, forall₂_utf8.mp hss, by simp [Raw.text], hrest⟩

theorem encode_value {v : ByteValue} {r : Raw} (h : v.Decodes r) : utf8 r.text = v.bytes := by
  match v, r, h with
  | .str _, .str s, rfl => exact utf8_quoted s
  | .num _, .num x, rfl => exact utf8_ascii (ascii_decText x)
  | .arr vs, .arr ss, h =>
      have hjoined : utf8 (joined (ss.map quoted)) = joinedBytes (vs.map quotedBytes) :=
        encode_joined (fun v s hs => by rw [utf8_quoted, hs]) (forall₂_utf8.mpr h)
      unfold Raw.text ByteValue.bytes
      rw [utf8_cons, utf8_append, hjoined]
      rfl

theorem text_entry (f : Entry) (k : Key) (h : f.key = k.text) :
    f.text = k.front ++ f.value.text := by
  simp [Entry.text, Key.front, h]

theorem decode_entry (e : ByteEntry) (cs : List Char) (d : Char) (w : List UInt8)
    (hd : Delimiter d) (h : utf8 cs = e.bytes ++ charByte d :: w) :
    ∃ f cs', e.Decodes f ∧ cs = f.text ++ d :: cs' ∧ utf8 cs' = w := by
  unfold ByteEntry.bytes at h
  rw [List.append_assoc] at h
  obtain ⟨cs', rfl, hcs⟩ := utf8_ascii_append (ascii_front e.key) h
  obtain ⟨r, cs'', hr, rfl, hrest⟩ := decode_value _ _ _ _ hd hcs
  refine ⟨⟨e.key.text, e.key.clean, r⟩, cs'', ⟨rfl, hr⟩, ?_, hrest⟩
  rw [text_entry _ e.key rfl, List.append_assoc]

theorem encode_entry {e : ByteEntry} {f : Entry} (h : e.Decodes f) : utf8 f.text = e.bytes := by
  rw [text_entry f e.key h.1, utf8_append, utf8_ascii (ascii_front e.key), encode_value h.2]
  rfl

/-- The text of an object can be recovered from its bytes. -/
theorem decode_object {es : List ByteEntry} {cs : List Char} (h : utf8 cs = objectBytes es) :
    ∃ fs, List.Forall₂ ByteEntry.Decodes es fs ∧ cs = openObject fs ++ ['\x7d'] := by
  obtain ⟨cs', rfl, hcs⟩ := decode_char (d := '\x7b') (by decide) h
  obtain ⟨fs, rest, hfs, rfl, hrest⟩ := decode_joined decode_entry (.inr (.inr rfl)) hcs
  have hnil : rest = [] := utf8_injective hrest
  exact ⟨fs, hfs, by rw [hnil]; rfl⟩

theorem encode_object {es : List ByteEntry} {fs : List Entry}
    (h : List.Forall₂ ByteEntry.Decodes es fs) :
    utf8 (openObject fs ++ ['\x7d']) = objectBytes es := by
  unfold openObject objectBytes
  rw [utf8_append, utf8_cons, encode_joined (fun e f hf => encode_entry hf) h]
  rfl

end Texts

section Reading

theorem reads_decodes {v : ByteValue} {r : Raw} {j : Json} (hd : v.Decodes r) (hj : v.Reads j) :
    j = r.json := by
  match v, r, hd with
  | .str _, .str s, rfl =>
      obtain ⟨t, rfl, ht⟩ := hj
      rw [utf8_injective ht]
      rfl
  | .num _, .num x, rfl => exact hj
  | .arr _, .arr ss, rfl =>
      obtain ⟨ts, rfl, hts⟩ := hj
      rw [List.map_injective_iff.mpr (fun _ _ => utf8_injective) hts]
      rfl

theorem reads_json {v : ByteValue} {r : Raw} (hd : v.Decodes r) : v.Reads r.json := by
  match v, r, hd with
  | .str _, .str s, rfl => exact ⟨s, rfl, rfl⟩
  | .num _, .num x, rfl => exact rfl
  | .arr _, .arr ss, rfl => exact ⟨ss, rfl, rfl⟩

theorem cleanBytes_utf8 {s : List Char} : CleanBytes (utf8 s) ↔ Clean s := by
  constructor
  · rintro ⟨t, ht, hclean⟩
    rwa [← utf8_injective ht]
  · exact fun h => ⟨s, rfl, h⟩

theorem clean_decodes {v : ByteValue} {r : Raw} (hd : v.Decodes r) : v.Clean ↔ r.Clean := by
  match v, r, hd with
  | .str _, .str s, rfl => exact cleanBytes_utf8
  | .num _, .num x, rfl => exact Iff.rfl
  | .arr _, .arr ss, rfl =>
      unfold ByteValue.Clean Raw.Clean
      simp only [List.mem_map, forall_exists_index, and_imp, forall_apply_eq_imp_iff₂,
        cleanBytes_utf8]

/-- A value of clean strings is a text. -/
theorem exists_decodes {v : ByteValue} (h : v.Clean) : ∃ r, v.Decodes r := by
  cases v with
  | str v =>
      obtain ⟨s, hs, -⟩ := h
      exact ⟨.str s, hs⟩
  | num x => exact ⟨.num x, rfl⟩
  | arr vs =>
      have hall : ∃ ss : List (List Char), ss.map utf8 = vs := by
        induction vs with
        | nil => exact ⟨[], rfl⟩
        | cons v vs ih =>
            obtain ⟨s, hs, -⟩ := h v List.mem_cons_self
            obtain ⟨ss, hss⟩ := ih fun u hu => h u (List.mem_cons_of_mem v hu)
            exact ⟨s :: ss, by rw [List.map_cons, hs, hss]⟩
      obtain ⟨ss, hss⟩ := hall
      exact ⟨.arr ss, hss⟩

theorem exists_entries {es : List ByteEntry} (h : ∀ e ∈ es, e.value.Clean) :
    ∃ fs, List.Forall₂ ByteEntry.Decodes es fs := by
  induction es with
  | nil => exact ⟨[], .nil⟩
  | cons e es ih =>
      obtain ⟨r, hr⟩ := exists_decodes (h e List.mem_cons_self)
      obtain ⟨fs, hfs⟩ := ih fun f hf => h f (List.mem_cons_of_mem e hf)
      exact ⟨⟨e.key.text, e.key.clean, r⟩ :: fs, .cons ⟨rfl, hr⟩ hfs⟩

theorem pairs_eq {es : List ByteEntry} {fs : List Entry} {ms : List (List Char × Json)}
    (hfs : List.Forall₂ ByteEntry.Decodes es fs) (hms : List.Forall₂ ByteEntry.Reads es ms) :
    ms = fs.map Entry.pair := by
  induction hfs generalizing ms with
  | nil =>
      cases hms
      rfl
  | cons hf _ ih =>
      cases hms with
      | cons hm hms =>
          rw [List.map_cons, ih hms, Entry.pair, hf.1, ← hm.1, ← reads_decodes hf.2 hm.2]

theorem reads_pairs {es : List ByteEntry} {fs : List Entry}
    (hfs : List.Forall₂ ByteEntry.Decodes es fs) :
    List.Forall₂ ByteEntry.Reads es (fs.map Entry.pair) := by
  induction hfs with
  | nil => exact .nil
  | cons hf _ ih => exact .cons ⟨hf.1, reads_json hf.2⟩ ih

theorem clean_entries {es : List ByteEntry} {fs : List Entry}
    (hfs : List.Forall₂ ByteEntry.Decodes es fs) :
    (∀ e ∈ es, e.value.Clean) ↔ ∀ f ∈ fs, f.value.Clean := by
  induction hfs with
  | nil => simp
  | cons hf _ ih => rw [List.forall_mem_cons, List.forall_mem_cons, clean_decodes hf.2, ih]

/-- The bytes of an object are read back exactly if all of its strings are clean texts. -/
theorem readsAs_object {es : List ByteEntry} (hne : es ≠ []) :
    (∃ ms, ReadsAs (objectBytes es) (.obj ms) ∧ List.Forall₂ ByteEntry.Reads es ms) ↔
      ∀ e ∈ es, e.value.Clean := by
  have hfs_ne : ∀ fs, List.Forall₂ ByteEntry.Decodes es fs → fs ≠ [] := by
    rintro fs hfs rfl
    cases hfs
    exact hne rfl
  constructor
  · rintro ⟨ms, ⟨cs, hcs, hparse⟩, hms⟩
    obtain ⟨fs, hfs, rfl⟩ := decode_object hcs
    rw [pairs_eq hfs hms] at hparse
    exact (clean_entries hfs).mpr ((parse_openObject (hfs_ne fs hfs)).mp hparse)
  · intro h
    obtain ⟨fs, hfs⟩ := exists_entries h
    exact ⟨fs.map Entry.pair, ⟨_, encode_object hfs,
      (parse_openObject (hfs_ne fs hfs)).mpr ((clean_entries hfs).mp h)⟩, reads_pairs hfs⟩

end Reading

end Iputils.JsonBytes
