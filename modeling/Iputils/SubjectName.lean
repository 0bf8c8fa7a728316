import Iputils.DomainName
import Iputils.NodeInfo

/-!
# The subject of a node information query

`niquery_option_subject_name_handler` encodes a name for the query, hashes its first label
for the group address, and marks a name that is not fully qualified with one more zero
octet. The hash is given as many octets as the label has, and the first of these is its
length. The option that stands for a fully qualified name sets the mark always.
-/
set_option autoImplicit false

namespace Iputils.SubjectName
open MachineInt ByteBuffer Md5 NodeInfo DomainName

section Code

/-- `IPUTILS_NI_ICMP6_SUBJ_FQDN` -/
def niIcmp6SubjFqdn : ℤ := 1

def scopeDelimiter : UInt8 := 37
def ifNamSiz : ℕ := 16

/-- The fields that the handler uses. -/
structure PingNi where
  subject : Option (List UInt8) := none
  subjectType : ℤ := -1
  group : List Char := []
deriving Repr, DecidableEq

def niqueryIsSubjectValid (ni : PingNi) : Prop := ni.subjectType ≥ 0 ∧ ni.subject.isSome = true

instance (ni : PingNi) : Decidable (niqueryIsSubjectValid ni) :=
  inferInstanceAs (Decidable (_ ∧ _))

/-- The options that come to the handler, with their `data`. -/
inductive SubjectOption
  | subjectName | subjectFqdn
deriving Repr, DecidableEq

def SubjectOption.data : SubjectOption → ℤ
  | .subjectName => 0
  | .subjectFqdn => -1

/-- A name that is not accepted. The first of these returns -1, the others end the program. -/
inductive Failure
  | conflict
  | idn (reason : List Char)
  | longScope
  | inappropriate (canonname : List UInt8)
  | longResult
deriving Repr, DecidableEq

def byteText (s : List UInt8) : List Char := s.map fun b => Char.ofNat b.toNat

def Failure.message : Failure → List Char
  | .conflict => "Subject type conflict\n".toList
  | .idn reason => "IDN encoding error: ".toList ++ reason
  | .longScope => "too long scope name".toList
  | .inappropriate canonname => "inappropriate subject name: ".toList ++ byteText canonname
  | .longResult => "dn_comp() returned too long result".toList

/-- `tolower` behind a test with `isupper`. -/
def lower (b : UInt8) : UInt8 := if 65 ≤ b.toNat ∧ b.toNat ≤ 90 then b + 32 else b

/-- What stands before the scope, and the scope. -/
def hostPart (idn : List UInt8) : List UInt8 := idn.takeWhile (· ≠ scopeDelimiter)

def scopePart (idn : List UInt8) : Option (List UInt8) :=
  (idn.dropWhile (· ≠ scopeDelimiter)).tail?

/-- The functions of libraries that are not part of the sources: `idn2_lookup_ul` or `strdup`,
and `dn_comp` with the names that it takes texts for. -/
structure Names where
  lookup : List UInt8 → Except (List Char) (List UInt8)
  dnComp : List UInt8 → ℕ → Option (List UInt8)
  labels : List UInt8 → List Label

/-- The name that is encoded, with its scope, and the encoded name. -/
structure Encoded where
  host : List UInt8
  scope : Option (List UInt8)
  buf : List UInt8
deriving Repr, DecidableEq

def Encoded.canonname (e : Encoded) : List UInt8 := e.host.map lower

variable (names : Names)

/-- The handler up to the call of `dn_comp` and the checks of its result. -/
def encodeSubject (name : List UInt8) : Except Failure Encoded :=
  match names.lookup name with
  | .error reason => .error (.idn reason)
  | .ok idn =>
      let host := hostPart idn
      if (scopePart idn).any (fun scope => ifNamSiz ≤ scope.length) = true then .error .longScope
      else
        let buflen := host.length + 3 + 1
        match names.dnComp (host.map lower) buflen with
        | none => .error (.inappropriate (host.map lower))
        | some buf =>
            if buflen ≤ buf.length then .error .longResult else .ok ⟨host, scopePart idn, buf⟩

/-- The octets that `MD5Update` is given. -/
def hashedOctets (buf : List UInt8) : List UInt8 := buf.take (buf.headD 0).toNat

/-- `nigroup_buf` -/
def groupText (digest : List UInt8) (scope : Option (List UInt8)) : List Char :=
  "ff02::2:".toList ++ hex02Text (byteAt digest 0) ++ hex02Text (byteAt digest 1) ++
    ':' :: (hex02Text (byteAt digest 2) ++ hex02Text (byteAt digest 3)) ++
    match scope with
    | none => []
    | some scope => '%' :: byteText scope

/-- The local variable `fqdn`: with a `data` of zero a name with a dot counts as qualified. -/
def fqdnOf (data : ℤ) (host : List UInt8) : ℤ :=
  if data = 0 then if host.count dot ≠ 0 then 1 else -1 else data

def niqueryOptionSubjectNameHandler (option : SubjectOption) (ni : PingNi) (name : List UInt8) :
    Except Failure PingNi :=
  if niqueryIsSubjectValid ni ∧ ni.subjectType ≠ niIcmp6SubjFqdn then .error .conflict
  else
    match encodeSubject names name with
    | .error failure => .error failure
    | .ok e =>
        let digest := iputilsMd5Final (iputilsMd5Update iputilsMd5Init (hashedOctets e.buf))
        .ok
          { subject := some (e.buf ++ if fqdnOf option.data e.host < 0 then [0] else [])
            subjectType := niIcmp6SubjFqdn
            group := groupText digest e.scope }

end Code

section Hash

/-- `dn_comp` writes the form of RFC 1035 without compression. -/
def WritesWireForm (names : Names) : Prop :=
  ∀ name buflen buf, names.dnComp name buflen = some buf → buf = wireForm (names.labels name)

/-- The first label, empty for the root. -/
def firstLabel (ls : List Label) : List UInt8 := (ls.head?.map Label.bytes).getD []

/-- The length octet and the first label. -/
def firstOctets (ls : List Label) : List UInt8 :=
  UInt8.ofNat (firstLabel ls).length :: firstLabel ls

variable {names : Names} {name name' : List UInt8} {e e' : Encoded}

theorem encodeSubject_ok (h : encodeSubject names name = .ok e) :
    ∃ idn, names.lookup name = .ok idn ∧ e.host = hostPart idn ∧
      names.dnComp e.canonname (e.host.length + 3 + 1) = some e.buf := by
  unfold encodeSubject at h
  cases hlookup : names.lookup name with
  | error reason =>
      rw [hlookup] at h
      cases h
  | ok idn =>
      rw [hlookup] at h
      dsimp only at h
      split_ifs at h
      cases hcomp : names.dnComp ((hostPart idn).map lower) ((hostPart idn).length + 3 + 1) with
      | none =>
          rw [hcomp] at h
          cases h
      | some buf =>
          rw [hcomp] at h
          dsimp only at h
          split_ifs at h
          obtain rfl := Except.ok.inj h
          exact ⟨idn, rfl, rfl, hcomp⟩

theorem length_firstLabel (ls : List Label) : (firstLabel ls).length ≤ 63 := by
  cases ls with
  | nil => exact Nat.zero_le 63
  | cons l ls => exact l.short

/-- The hash takes one octet less than the length octet and the label. -/
theorem hashedOctets_wireForm (ls : List Label) :
    hashedOctets (wireForm ls) = (firstOctets ls).dropLast := by
  cases ls with
  | nil => rfl
  | cons l ls =>
      have hoctets : firstOctets (l :: ls) = l.octets := rfl
      have hlen : l.octets.length = l.bytes.length + 1 := rfl
      have hfront : wireForm (l :: ls) = l.octets ++ wireForm ls := by
        rw [wireForm_cons, Label.octets, List.cons_append]
      have hhead : (wireForm (l :: ls)).headD 0 = UInt8.ofNat l.bytes.length := by
        rw [hfront]
        rfl
      rw [hashedOctets, hhead, l.toNat_length, hfront, hoctets, List.dropLast_eq_take, hlen,
        Nat.add_sub_cancel, List.take_append_of_le_length (by omega)]

theorem dropLast_firstOctets {ls : List Label} (h : firstLabel ls ≠ []) :
    (firstOctets ls).dropLast =
      UInt8.ofNat (firstLabel ls).length :: (firstLabel ls).dropLast :=
  List.dropLast_cons_of_ne_nil h

theorem dropLast_root {ls : List Label} (h : firstLabel ls = []) :
    (firstOctets ls).dropLast = [] := by
  rw [firstOctets, h]
  rfl

/-- When two names are hashed alike. -/
theorem hashed_eq_iff (ls ls' : List Label) :
    (firstOctets ls).dropLast = (firstOctets ls').dropLast ↔
      (firstLabel ls).length = (firstLabel ls').length ∧
        (firstLabel ls).dropLast = (firstLabel ls').dropLast := by
  by_cases hroot : firstLabel ls = []
  · rw [dropLast_root hroot, hroot, eq_comm]
    by_cases hroot' : firstLabel ls' = []
    · rw [dropLast_root hroot', hroot']
      exact iff_of_true rfl ⟨rfl, rfl⟩
    · rw [dropLast_firstOctets hroot']
      refine iff_of_false (List.cons_ne_nil _ _) fun hall => hroot' ?_
      exact List.length_eq_zero_iff.mp hall.1.symm
  · rw [dropLast_firstOctets hroot]
    by_cases hroot' : firstLabel ls' = []
    · rw [dropLast_root hroot', hroot']
      refine iff_of_false (List.cons_ne_nil _ _) fun hall => hroot ?_
      exact List.length_eq_zero_iff.mp hall.1
    · rw [dropLast_firstOctets hroot', List.cons.injEq]
      refine and_congr_left' ⟨fun hoctet => ?_, congrArg UInt8.ofNat⟩
      have hnat := congrArg UInt8.toNat hoctet
      have hshort := length_firstLabel ls
      have hshort' := length_firstLabel ls'
      rw [UInt8.toNat_ofNat', UInt8.toNat_ofNat'] at hnat
      omega

/-- No name is hashed with its whole first label. -/
theorem hashed_label_iff (hnames : WritesWireForm names) (h : encodeSubject names name = .ok e)
    (h' : encodeSubject names name' = .ok e') :
    hashedOctets e.buf ≠ firstOctets (names.labels e.canonname) ∧
      (hashedOctets e.buf ≠ hashedOctets e'.buf ↔
        (firstLabel (names.labels e.canonname)).length ≠
            (firstLabel (names.labels e'.canonname)).length ∨
          (firstLabel (names.labels e.canonname)).dropLast ≠
            (firstLabel (names.labels e'.canonname)).dropLast) := by
  obtain ⟨-, -, -, hcomp⟩ := encodeSubject_ok h
  obtain ⟨-, -, -, hcomp'⟩ := encodeSubject_ok h'
  rw [hnames _ _ _ hcomp, hnames _ _ _ hcomp', hashedOctets_wireForm, hashedOctets_wireForm]
  constructor
  · intro heq
    have hlen := congrArg List.length heq
    rw [List.length_dropLast, firstOctets, List.length_cons] at hlen
    omega
  · rw [ne_eq, hashed_eq_iff, not_and_or]

end Hash

section Plain

/-- `dn_comp` for names without escapes. -/
def plainComp (name : List UInt8) (buflen : ℕ) : Option (List UInt8) :=
  (textLabels name).bind fun ls =>
    if (wireForm ls).length ≤ buflen then some (wireForm ls) else none

/-- A build without IDN. -/
def plainNames : Names where
  lookup := .ok
  dnComp := plainComp
  labels name := (textLabels name).getD []

theorem plainNames_wireForm : WritesWireForm plainNames := by
  intro name buflen buf h
  change plainComp name buflen = some buf at h
  obtain ⟨ls, hls, h⟩ := Option.bind_eq_some_iff.mp h
  split_ifs at h
  obtain rfl := Option.some.inj h
  change wireForm ls = wireForm ((textLabels name).getD [])
  rw [hls]
  rfl

/-- The names `ab` and `ac` as they are encoded. -/
def encodedAb : Encoded := ⟨[97, 98], none, [2, 97, 98, 0]⟩
def encodedAc : Encoded := ⟨[97, 99], none, [2, 97, 99, 0]⟩

theorem hashed_label_ab :
    hashedOctets encodedAb.buf ≠ firstOctets (plainNames.labels encodedAb.canonname) ∧
      (hashedOctets encodedAb.buf ≠ hashedOctets encodedAc.buf ↔
        (firstLabel (plainNames.labels encodedAb.canonname)).length ≠
            (firstLabel (plainNames.labels encodedAc.canonname)).length ∨
          (firstLabel (plainNames.labels encodedAb.canonname)).dropLast ≠
            (firstLabel (plainNames.labels encodedAc.canonname)).dropLast) :=
  hashed_label_iff plainNames_wireForm
    (show encodeSubject plainNames [97, 98] = .ok encodedAb by decide)
    (show encodeSubject plainNames [97, 99] = .ok encodedAc by decide)

/-- The groups of `ab` and of `ac` are the same. -/
theorem last_octet_not_hashed :
    ¬ ∀ (names : Names) (name name' : List UInt8) (e e' : Encoded), WritesWireForm names →
      encodeSubject names name = .ok e → encodeSubject names name' = .ok e' →
      hashedOctets e.buf = firstOctets (names.labels e.canonname) ∧
        (firstLabel (names.labels e.canonname) ≠ firstLabel (names.labels e'.canonname) →
          hashedOctets e.buf ≠ hashedOctets e'.buf) := by
  intro h
  have hpair := h plainNames [97, 98] [97, 99] encodedAb encodedAc plainNames_wireForm
    (by decide) (by decide)
  exact hpair.2 (by decide) rfl

end Plain

section Mark

/-- `dn_expand` reads back what `dn_comp` has written, whatever follows it. -/
def ReadsBack (names : Names) (lib : Resolver) : Prop :=
  ∀ name buflen buf tail, names.dnComp name buflen = some buf →
    ∃ text, lib.dnExpand (buf ++ tail) 0 = some (buf.length, text)

/-- The rule of `pr_niquery_reply_name` for the name at the front: it is fully qualified unless
a zero octet follows it. -/
def readsQualified (lib : Resolver) (subject : List UInt8) : Option Bool :=
  (lib.dnExpand subject 0).map fun r =>
    decide (¬ (r.1 < subject.length ∧ subject.getD r.1 0 = 0))

/-- What the option says about the name. -/
def MeansQualified (option : SubjectOption) (name : List UInt8) : Prop :=
  option = .subjectFqdn ∨ dot ∈ name

instance (option : SubjectOption) (name : List UInt8) : Decidable (MeansQualified option name) :=
  inferInstanceAs (Decidable (_ ∨ _))

/-- The subject is read as what the option says. -/
def Marked (lib : Resolver) (option : SubjectOption) (name : List UInt8) (ni : PingNi) : Prop :=
  ∃ subject, ni.subject = some subject ∧
    readsQualified lib subject = some (decide (MeansQualified option name))

/-- A text that is printed for the subject ends in a dot if it is read as fully qualified. -/
theorem replyNames_subject {lib : Resolver} {subject : List UInt8} {b : Bool} (hne : subject ≠ [])
    (h : readsQualified lib subject = some b) (fuel : ℕ) :
    ∃ name rest, replyNames lib subject (fuel + 1) 0 false =
      .text (' ' :: (name ++ if b = true then ['.'] else [])) :: rest := by
  obtain ⟨⟨ret, text⟩, hexpand, hmark⟩ := Option.map_eq_some_iff.mp h
  have hfqdn : (¬ (0 + ret < subject.length ∧ subject.getD (0 + ret) 0 = 0)) ↔ b = true := by
    rw [Nat.zero_add, ← hmark, decide_eq_true_iff]
  have hround : replyNames lib subject (fuel + 1) 0 false =
      .text (' ' :: (text.flatMap putcharSafe ++ if b = true then ['.'] else [])) ::
        replyNames lib subject fuel (0 + ret + if b = true then 0 else 1) true := by
    rw [replyNames, if_pos (List.length_pos_iff.mpr hne), hexpand]
    dsimp only
    rw [if_congr hfqdn rfl rfl, if_congr hfqdn rfl rfl]
    rfl
  exact ⟨_, _, hround⟩

variable {names : Names} {lib : Resolver} {option : SubjectOption} {ni ni' : PingNi}
  {name : List UInt8}

theorem handler_ok (h : niqueryOptionSubjectNameHandler names option ni name = .ok ni') :
    ∃ e, encodeSubject names name = .ok e ∧
      ni'.subject = some (e.buf ++ if fqdnOf option.data e.host < 0 then [0] else []) := by
  unfold niqueryOptionSubjectNameHandler at h
  split_ifs at h
  cases he : encodeSubject names name with
  | error failure =>
      rw [he] at h
      cases h
  | ok e =>
      rw [he] at h
      obtain rfl := Except.ok.inj h
      exact ⟨e, rfl, rfl⟩

/-- The mark is read as it was set. -/
theorem readsQualified_subject (hlib : ReadsBack names lib) {n : List UInt8} {buflen : ℕ}
    {buf : List UInt8} (h : names.dnComp n buflen = some buf) (fqdn : ℤ) :
    readsQualified lib (buf ++ if fqdn < 0 then [0] else []) = some (decide (0 ≤ fqdn)) := by
  obtain ⟨text, hexpand⟩ := hlib n buflen buf (if fqdn < 0 then [0] else []) h
  rw [readsQualified, hexpand, Option.map_some]
  by_cases hmark : fqdn < 0
  · simp [hmark, not_le.mpr hmark]
  · simp [hmark, not_lt.mp hmark]

/-- The mark is right for a name given with `subject-name` whose dots stand before its scope, and
for no name given with `subject-fqdn`. -/
theorem marked_iff (hlib : ReadsBack names lib)
    (h : niqueryOptionSubjectNameHandler names option ni name = .ok ni') :
    ∃ idn, names.lookup name = .ok idn ∧
      (Marked lib option name ni' ↔
        option = .subjectName ∧ (dot ∈ hostPart idn ↔ dot ∈ name)) := by
  obtain ⟨e, he, hsubject⟩ := handler_ok h
  obtain ⟨idn, hidn, hhost, hcomp⟩ := encodeSubject_ok he
  refine ⟨idn, hidn, ?_⟩
  have hread := readsQualified_subject hlib hcomp (fqdnOf option.data e.host)
  have hmarked : Marked lib option name ni' ↔
      decide (0 ≤ fqdnOf option.data e.host) = decide (MeansQualified option name) := by
    unfold Marked
    rw [hsubject]
    simp [hread]
  rw [hmarked, decide_eq_decide]
  cases option with
  | subjectFqdn =>
      refine iff_of_false (fun hall => ?_) fun hall => ?_
      · have hmark : (0 : ℤ) ≤ -1 := hall.mpr (Or.inl rfl)
        exact absurd hmark (by decide)
      · cases hall.1
  | subjectName =>
      have hname : MeansQualified .subjectName name ↔ dot ∈ name := by
        unfold MeansQualified
        simp
      have hhostdot : 0 ≤ fqdnOf SubjectOption.subjectName.data e.host ↔ dot ∈ hostPart idn := by
        rw [← hhost, ← List.count_pos_iff]
        change 0 ≤ (if e.host.count dot ≠ 0 then (1 : ℤ) else -1) ↔ _
        split_ifs with hdots
        · exact iff_of_true (by decide) (Nat.pos_of_ne_zero hdots)
        · exact iff_of_false (by decide) (by omega)
      rw [hname, hhostdot]
      exact ⟨fun hall => ⟨rfl, hall⟩, And.right⟩

theorem length_lt_wireForm (ls : List Label) : ls.length < (wireForm ls).length := by
  induction ls with
  | nil => exact Nat.one_pos
  | cons l ls ih =>
      rw [wireForm_cons, List.length_cons, List.length_cons, List.length_append]
      omega

/-- `dn_expand` for names without escapes and without compression. -/
def plainResolver : Resolver where
  dnExpand data p :=
    (readLabels (data.length + 1) (data.drop p)).map fun r => (r.1, [dot].intercalate r.2)
  inetNtop _ _ := none
  strerror := "Address family not supported by protocol".toList
  dnExpand_pos _ _ _ _ h := by
    obtain ⟨r, hr, heq⟩ := Option.map_eq_some_iff.mp h
    obtain ⟨rfl, -⟩ := Prod.mk.inj heq
    exact readLabels_pos hr

theorem plainNames_readsBack : ReadsBack plainNames plainResolver := by
  intro name buflen buf tail h
  obtain rfl := plainNames_wireForm name buflen buf h
  have hlt := length_lt_wireForm (plainNames.labels name)
  have hfuel : (plainNames.labels name).length <
      (wireForm (plainNames.labels name) ++ tail).length + 1 := by
    rw [List.length_append]
    omega
  have hread := readLabels_wireForm (plainNames.labels name) tail hfuel
  refine ⟨[dot].intercalate ((plainNames.labels name).map Label.bytes), ?_⟩
  change (readLabels _ ((wireForm (plainNames.labels name) ++ tail).drop 0)).map _ = _
  rw [List.drop_zero, hread]
  rfl

/-- The subject `ab`, with the mark. -/
def niAb : PingNi where
  subject := some [2, 97, 98, 0, 0]
  subjectType := 1
  group := groupText
    (iputilsMd5Final (iputilsMd5Update iputilsMd5Init (hashedOctets encodedAb.buf))) none

theorem marked_ab :
    ∃ idn, plainNames.lookup [97, 98] = .ok idn ∧
      (Marked plainResolver .subjectName [97, 98] niAb ↔
        SubjectOption.subjectName = .subjectName ∧ (dot ∈ hostPart idn ↔ dot ∈ [97, 98])) :=
  marked_iff plainNames_readsBack
    (show niqueryOptionSubjectNameHandler plainNames .subjectName {} [97, 98] = .ok niAb from rfl)

/-- With `subject-fqdn` the name `ab` gets the mark of a name that is not fully qualified. -/
theorem fqdn_marked_unqualified :
    ¬ ∀ (names : Names) (lib : Resolver) (option : SubjectOption) (ni ni' : PingNi)
      (name : List UInt8), ReadsBack names lib →
      niqueryOptionSubjectNameHandler names option ni name = .ok ni' →
      Marked lib option name ni' := by
  intro h
  obtain ⟨subject, hsubject, hread⟩ := h plainNames plainResolver .subjectFqdn {} niAb [97, 98]
    plainNames_readsBack rfl
  obtain rfl := Option.some.inj hsubject
  exact absurd hread (by decide)

end Mark

end Iputils.SubjectName
