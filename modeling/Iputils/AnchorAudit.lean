import Iputils.SourcePriority

/-!
# The verdict of baudit

`baudit` collects anchors from its command line, puts the place of its own ping
in front of them and counts the anchors whose ring contains the target. The
anchors live in an array of `MAX_ANCHORS` entries. An anchor that finds the array
full is dropped, and so is the self anchor. The main result says that the verdict
is the one of all anchors exactly when every dropped anchor agrees with it.
-/
set_option autoImplicit false

namespace Iputils.AnchorAudit
open ScanText CoordinateSource SourcePriority

structure Anchor (K : Type) where
  lat : K
  lon : K
  rttMs : K
  label : List Char
  fromCli : Bool
deriving Repr, DecidableEq

/-- The further floating-point operations of `baudit`: `x / 2.0`, the product with
`BS_KM_PER_MBM`, the tests `x > 0.0` and `x <= y`, and `bs_haversine_km`. -/
structure AuditOps (K : Type) extends FloatOps K where
  half : K → K
  mbmToKm : K → K
  positive : K → Bool
  atMost : K → K → Bool
  haversineKm : K → K → K → K → K

/-- `sscanf` with `n` conversions `%lf` between separators: the numbers, and the
text behind the last one. -/
def scanFields (sep : Char) : ℕ → List Char → Option (List (List Char) × List Char)
  | 0, s => some ([], s)
  | n + 1, s =>
      match floatItem (s.dropWhile isSpace) with
      | none => none
      | some item =>
          if n = 0 then some ([item.1], item.2)
          else if item.2.head? = some sep then
            (scanFields sep n item.2.tail).map fun rest => (item.1 :: rest.1, rest.2)
          else none

def labelSize : ℕ := 64

/-- The text behind the third comma. -/
def anchorLabel (rest : List Char) : List Char :=
  if rest.head? = some ',' then rest.tail.take (labelSize - 1) else []

section
variable {K : Type} (ops : AuditOps K)

def parseAnchor (s : List Char) : Option (Anchor K) :=
  match scanFields ',' 3 s with
  | some ([lat, lon, rtt], rest) =>
      some ⟨ops.value lat, ops.value lon, ops.value rtt, anchorLabel rest, true⟩
  | _ => none

/-- The variables of the argument loop, with the filled part of the array. -/
structure AuditVars (K : Type) where
  vars : Vars K
  anchors : List (Anchor K)

/-- What the loop does with the text of an `--anchor`. -/
def storeAnchor (anchors : List (Anchor K)) (text : List Char) : List (Anchor K) :=
  if anchors.length < maxAnchors then
    match parseAnchor ops text with
    | some a => anchors ++ [a]
    | none => anchors
  else anchors

def AuditVars.apply (v : AuditVars K) (arg : Arg) : Option (AuditVars K) :=
  (v.vars.apply ops.toFloatOps arg).map fun vars =>
    ⟨vars, match arg with
      | .anchor text => storeAnchor ops v.anchors text
      | _ => v.anchors⟩

def auditLoop : List Arg → AuditVars K → Option (AuditVars K)
  | [], v => some v
  | arg :: args, v => (v.apply ops arg).bind (auditLoop args)

/-- The average of a summary line of `ping`; `buf` is what `fgets` delivered. -/
def summaryAvg (buf : List Char) : Option K :=
  match strchr '=' buf with
  | none => none
  | some eq =>
      if buf.tails.any "min/avg/max".toList.isPrefixOf then
        match scanFields '/' 2 eq.tail with
        | some ([_, vavg], _) => some (ops.value vavg)
        | _ => none
      else none

/-- `self_rtt_ms` after the loop over the output of `ping`, `none` for `-1.0`. -/
def selfRtt (bufs : List (List Char)) : Option K :=
  bufs.foldl (fun rtt buf => (summaryAvg ops buf).or rtt) none

/-- The self anchor; `lbl` is the text of `bs_geo_label` and `bufs` the output of
the self probe, which is not run without a position. -/
def selfAnchor (myGeo : Geo K) (lbl : List Char) (bufs : List (List Char)) :
    Option (Anchor K) :=
  match if myGeo.valid then selfRtt ops bufs else none with
  | none => none
  | some rtt =>
      if ops.positive rtt then
        some ⟨myGeo.lat, myGeo.lon, rtt,
          ((if lbl = [] then "self".toList else lbl) ++ ' ' :: myGeo.tag).take (labelSize - 1),
          false⟩
      else none

/-- The self anchor is put in front while there is room. -/
def prependSelf (self : Option (Anchor K)) (anchors : List (Anchor K)) : List (Anchor K) :=
  match self with
  | none => anchors
  | some a => if anchors.length < maxAnchors then a :: anchors else anchors

def inRing (target : K × K) (a : Anchor K) : Bool :=
  ops.atMost (ops.haversineKm a.lat a.lon target.1 target.2) (ops.mbmToKm (ops.half a.rttMs))

/-- The loop over the array, with its counter `n_inside`. -/
def ringLoop (target : Option (K × K)) : List (Anchor K) → ℕ → ℕ
  | [], inside => inside
  | a :: anchors, inside =>
      ringLoop target anchors (if target.any (inRing ops · a) then inside + 1 else inside)

inductive Verdict
  | consistent
  | inconsistent (conflicting : ℕ)
deriving Repr, DecidableEq

/-- The number of conflicting anchors that the verdict reports. -/
def Verdict.conflicting : Verdict → ℕ
  | .consistent => 0
  | .inconsistent n => n

/-- How a run ends: in its arguments, without an anchor, or with the score
`n_inside`/`nanchors` and the verdict, if the position of the target is valid. -/
inductive Outcome
  | ended
  | noAnchors
  | report (nInside nanchors : ℕ) (verdict : Option Verdict)
deriving Repr, DecidableEq

def Outcome.verdict : Outcome → Option Verdict
  | .report _ _ verdict => verdict
  | _ => none

/-- The part of `main` behind the probe. -/
def judge (target : Option (K × K)) (anchors : List (Anchor K)) : Outcome :=
  if anchors.length = 0 then .noAnchors
  else
    let nInside := ringLoop ops target anchors 0
    .report nInside anchors.length <|
      if target.isSome then
        some (if nInside = anchors.length then .consistent
          else .inconsistent (anchors.length - nInside))
      else none

/-- `main`: the arguments `words`, the answers of the bridge and of geoIP about our
own position, the label of that position, the output of the self probe, and the
position of the target. -/
def baudit [Zero K] (words : List (List Char)) (bridge : Bridge K) (geoIp : Option (K × K))
    (lbl : List Char) (bufs : List (List Char)) (target : Option (K × K)) : Outcome :=
  match (commandLine .baudit words).bind (auditLoop ops · ⟨Vars.init, []⟩) with
  | none => .ended
  | some v =>
      if ¬ v.vars.dest then .ended
      else
        let myGeo := (locate ops.toFloatOps v.vars bridge geoIp).myGeo
        judge ops target (prependSelf (selfAnchor ops myGeo lbl bufs) v.anchors)

/-! ## The anchors that are given -/

/-- The well-formed anchors of the command line. -/
def cliAnchors (args : List Arg) : List (Anchor K) :=
  (args.filterMap Arg.anchor?).filterMap (parseAnchor ops)

/-- What a run is given: the anchors of an accepted command line, and its self anchor. -/
structure Given (K : Type) where
  cli : List (Anchor K)
  self : Option (Anchor K)

def Given.all (g : Given K) : List (Anchor K) := g.self.toList ++ g.cli

/-- The anchors that find the array full. -/
def Given.dropped (g : Given K) : List (Anchor K) :=
  g.cli.drop maxAnchors ++ if maxAnchors ≤ g.cli.length then g.self.toList else []

def given [Zero K] (words : List (List Char)) (bridge : Bridge K) (geoIp : Option (K × K))
    (lbl : List Char) (bufs : List (List Char)) : Given K :=
  match commandLine .baudit words with
  | none => ⟨[], none⟩
  | some args =>
      match parseArgs ops.toFloatOps args with
      | none => ⟨[], none⟩
      | some v =>
          ⟨cliAnchors ops args,
            selfAnchor ops (locate ops.toFloatOps v bridge geoIp).myGeo lbl bufs⟩

/-- A verdict about all the anchors `all`: it is missing only if there are none, it
is `consistent` iff the target is in every ring, and it counts the other rings. -/
def VerdictRight (target : K × K) (all : List (Anchor K)) : Option Verdict → Prop
  | none => all = []
  | some v =>
      all ≠ [] ∧ (v = .consistent ↔ ∀ a ∈ all, inRing ops target a) ∧
        v.conflicting = all.countP fun a => ! inRing ops target a

/-! ## What the array holds -/

variable {ops}

theorem auditLoop_vars (args : List Arg) (v : AuditVars K) :
    (auditLoop ops args v).map AuditVars.vars = argLoop ops.toFloatOps args v.vars := by
  induction args generalizing v with
  | nil => rfl
  | cons arg args ih =>
      unfold auditLoop argLoop AuditVars.apply
      cases v.vars.apply ops.toFloatOps arg with
      | none => rfl
      | some vars => exact ih _

theorem storeAnchor_take (anchors : List (Anchor K)) (text : List Char) :
    storeAnchor ops (anchors.take maxAnchors) text =
      (anchors ++ (parseAnchor ops text).toList).take maxAnchors := by
  unfold storeAnchor
  by_cases hroom : anchors.length < maxAnchors
  · have htake : anchors.take maxAnchors = anchors := List.take_of_length_le (by omega)
    rw [htake, if_pos hroom]
    cases parseAnchor ops text with
    | none => simp [htake]
    | some a =>
        have hlen : (anchors ++ [a]).length ≤ maxAnchors := by
          rw [List.length_append, List.length_singleton]
          omega
        exact (List.take_of_length_le hlen).symm
  · have hlen : ¬ (anchors.take maxAnchors).length < maxAnchors := by
      rw [List.length_take]
      omega
    rw [if_neg hlen, List.take_append_of_le_length (by omega)]

theorem cliAnchors_cons (arg : Arg) (args : List Arg) :
    cliAnchors ops (arg :: args) =
      ((Arg.anchor? arg).bind (parseAnchor ops)).toList ++ cliAnchors ops args := by
  unfold cliAnchors
  cases hs : Arg.anchor? arg with
  | none => simp [hs]
  | some text =>
      cases hp : parseAnchor ops text with
      | none => simp [hs, hp]
      | some a => simp [hs, hp]

/-- The array holds the first anchors, up to its size. -/
theorem auditLoop_anchors {args : List Arg} {pre : List (Anchor K)} {v v' : AuditVars K}
    (hv : v.anchors = pre.take maxAnchors) (h : auditLoop ops args v = some v') :
    v'.anchors = (pre ++ cliAnchors ops args).take maxAnchors := by
  induction args generalizing pre v with
  | nil =>
      obtain rfl : v = v' := by simpa [auditLoop] using h
      simpa [cliAnchors] using hv
  | cons arg args ih =>
      unfold auditLoop at h
      obtain ⟨w, hw, hrest⟩ := Option.bind_eq_some_iff.mp h
      obtain ⟨vars, -, rfl⟩ := Option.map_eq_some_iff.mp hw
      rw [cliAnchors_cons, ← List.append_assoc]
      refine ih ?_ hrest
      cases arg with
      | anchor text =>
          change storeAnchor ops v.anchors text = _
          rw [hv, storeAnchor_take]
          rfl
      | _ => simpa [Arg.anchor?] using hv

/-- The anchors that are judged. -/
theorem prependSelf_take (g : Given K) :
    prependSelf g.self (g.cli.take maxAnchors) =
      (if g.cli.length < maxAnchors then g.self.toList else []) ++ g.cli.take maxAnchors := by
  unfold prependSelf
  cases g.self with
  | none => simp
  | some a =>
      by_cases hroom : g.cli.length < maxAnchors
      · have hlen : (g.cli.take maxAnchors).length < maxAnchors := by
          rw [List.length_take]
          omega
        simp only [hlen, hroom, if_true, Option.toList_some, List.singleton_append]
      · have hlen : ¬ (g.cli.take maxAnchors).length < maxAnchors := by
          rw [List.length_take]
          omega
        simp only [hlen, hroom, if_false, List.nil_append]

/-- The judged and the dropped anchors are all the anchors. -/
theorem perm_all (g : Given K) :
    (prependSelf g.self (g.cli.take maxAnchors) ++ g.dropped).Perm g.all := by
  rw [prependSelf_take]
  unfold Given.dropped Given.all
  by_cases hroom : g.cli.length < maxAnchors
  · have hdrop : g.cli.drop maxAnchors = [] := List.drop_of_length_le (by omega)
    rw [if_pos hroom, if_neg (by omega), hdrop, List.take_of_length_le (by omega)]
    simp
  · rw [if_neg hroom, if_pos (by omega), List.nil_append, ← List.append_assoc,
      List.take_append_drop]
    exact List.perm_append_comm

/-! ## The verdict -/

theorem ringLoop_eq (target : K × K) (anchors : List (Anchor K)) (inside : ℕ) :
    ringLoop ops (some target) anchors inside = inside + anchors.countP (inRing ops target) := by
  induction anchors generalizing inside with
  | nil => rfl
  | cons a anchors ih =>
      rw [ringLoop, ih, List.countP_cons]
      by_cases ha : inRing ops target a
      · simp [ha]
        omega
      · simp [ha]

/-- The judged anchors alone decide about the verdict, and they decide rightly. -/
theorem judge_right (target : K × K) (anchors : List (Anchor K)) :
    VerdictRight ops target anchors (judge ops (some target) anchors).verdict := by
  unfold judge
  by_cases hnil : anchors = []
  · simp [hnil, Outcome.verdict, VerdictRight]
  · have hsum := List.length_eq_countP_add_countP (inRing ops target) (l := anchors)
    have hall : anchors.countP (inRing ops target) = anchors.length ↔
        ∀ a ∈ anchors, inRing ops target a := List.countP_eq_length
    rw [if_neg (by simpa using hnil)]
    simp only [ringLoop_eq, Nat.zero_add, Option.isSome_some, if_true, Outcome.verdict,
      VerdictRight, ← hall]
    refine ⟨hnil, ?_⟩
    by_cases hc : anchors.countP (inRing ops target) = anchors.length
    · simp only [hc, if_true, Verdict.conflicting, true_and]
      simp at hsum ⊢
      omega
    · simp only [hc, if_false, Verdict.conflicting, reduceCtorEq, true_and]
      simp at hsum ⊢
      omega

/-- A verdict about some anchors is one about all anchors iff the others agree. -/
theorem right_iff_of_perm {target : K × K} {judged dropped all : List (Anchor K)}
    {verdict : Option Verdict} (hperm : (judged ++ dropped).Perm all)
    (hnil : judged = [] → dropped = []) (h : VerdictRight ops target judged verdict) :
    VerdictRight ops target all verdict ↔ ∀ a ∈ dropped, inRing ops target a := by
  have hcount := hperm.countP_eq fun a => ! inRing ops target a
  have hlen := hperm.length_eq
  rw [List.countP_append] at hcount
  rw [List.length_append] at hlen
  cases verdict with
  | none =>
      have hjudged : judged = [] := h
      have hall : all = [] := by
        rw [← List.length_eq_zero_iff, ← hlen, hjudged, hnil hjudged]
        rfl
      simp [VerdictRight, hall, hnil hjudged]
  | some v =>
      obtain ⟨hne, hcons, hconf⟩ := h
      constructor
      · intro hright
        have hzero : dropped.countP (fun a => ! inRing ops target a) = 0 := by
          have hall := hright.2.2
          omega
        intro a ha
        simpa using List.countP_eq_zero.mp hzero a ha
      · intro hin
        have hzero : dropped.countP (fun a => ! inRing ops target a) = 0 :=
          List.countP_eq_zero.mpr fun a ha => by simp [hin a ha]
        refine ⟨?_, ?_, by omega⟩
        · intro hall
          have hpos := List.length_pos_iff.mpr hne
          rw [hall, List.length_nil] at hlen
          omega
        · rw [hcons]
          constructor
          · intro hj a ha
            rcases List.mem_append.mp (hperm.mem_iff.mpr ha) with hm | hm
            · exact hj a hm
            · exact hin a hm
          · exact fun hall a ha => hall a (hperm.mem_iff.mp (List.mem_append_left _ ha))

theorem not_right_of_conflict {target : K × K} {all : List (Anchor K)}
    (h : all.countP (fun a => ! inRing ops target a) ≠ 0) :
    ¬ VerdictRight ops target all (some .consistent) :=
  fun hright => h hright.2.2.symm

theorem judged_right (g : Given K) (target : K × K) :
    VerdictRight ops target g.all
        (judge ops (some target) (prependSelf g.self (g.cli.take maxAnchors))).verdict ↔
      ∀ a ∈ g.dropped, inRing ops target a := by
  refine right_iff_of_perm (perm_all g) ?_ (judge_right target _)
  intro hnil
  rw [prependSelf_take, List.append_eq_nil_iff, List.take_eq_nil_iff] at hnil
  rcases hnil.2 with hzero | hcli
  · exact absurd hzero (by decide)
  · simp [Given.dropped, hcli, maxAnchors]

variable (ops) in
/-- The verdict is the one about all anchors that are given exactly when the target is
in the ring of each anchor that found the array full. -/
theorem verdict_right_iff [Zero K] (words : List (List Char)) (bridge : Bridge K)
    (geoIp : Option (K × K)) (lbl : List Char) (bufs : List (List Char)) (target : K × K) :
    VerdictRight ops target (given ops words bridge geoIp lbl bufs).all
        (baudit ops words bridge geoIp lbl bufs (some target)).verdict ↔
      ∀ a ∈ (given ops words bridge geoIp lbl bufs).dropped, inRing ops target a := by
  unfold baudit given
  cases hwords : commandLine .baudit words with
  | none => simp [Given.all, Given.dropped, Outcome.verdict, VerdictRight]
  | some args =>
      have hvars : (auditLoop ops args ⟨Vars.init, []⟩).map AuditVars.vars =
          argLoop ops.toFloatOps args Vars.init := auditLoop_vars args _
      unfold parseArgs
      cases hloop : auditLoop ops args ⟨Vars.init, []⟩ with
      | none =>
          rw [hloop] at hvars
          simp [hloop, ← hvars, Given.all, Given.dropped, Outcome.verdict, VerdictRight]
      | some v =>
          rw [hloop] at hvars
          by_cases hdest : v.vars.dest
          · have hanchors : v.anchors = ([] ++ cliAnchors ops args).take maxAnchors :=
              auditLoop_anchors rfl hloop
            simpa [hloop, ← hvars, hdest, hanchors] using judged_right
              ⟨cliAnchors ops args,
                selfAnchor ops (locate ops.toFloatOps v.vars bridge geoIp).myGeo lbl bufs⟩ target
          · simp [hloop, ← hvars, hdest, Given.all, Given.dropped, Outcome.verdict, VerdictRight]

end

/-- Fixed-point numbers in thousandths, which read decimal integers, with distances
along the equator and the meridians. -/
def thousandths : AuditOps ℤ where
  value text := 1000 * text.foldl (fun n c => 10 * n + (c.toNat - '0'.toNat : ℕ)) 0
  isOrigin e := e = ⟨0, 0, 0⟩
  latitude e := e.z
  longitude e := e.y
  half x := x / 2
  mbmToKm x := x * 299792 / 1000
  positive x := 0 < x
  atMost x y := x ≤ y
  haversineKm lat lon lat' lon' := ((lat - lat').natAbs + (lon - lon').natAbs) * 111195 / 1000

/-- Thirty-two anchors around the target, and one on the other side of the earth whose
ring has a radius of 150 km. -/
def manyAnchors : List (List Char) :=
  List.replicate 32 "--anchor=0,0,9".toList ++ ["--anchor=0,180,1".toList, "host".toList]

theorem late_anchor_dropped :
    baudit thousandths manyAnchors .absent none [] [] (some (0, 0)) =
        .report 32 32 (some .consistent) ∧
      ¬ VerdictRight thousandths (0, 0) (given thousandths manyAnchors .absent none [] []).all
        (baudit thousandths manyAnchors .absent none [] [] (some (0, 0))).verdict := by
  have hb : baudit thousandths manyAnchors .absent none [] [] (some (0, 0)) =
      .report 32 32 (some .consistent) := by decide +kernel
  refine ⟨hb, ?_⟩
  rw [hb]
  exact not_right_of_conflict (by decide +kernel)

end Iputils.AnchorAudit
