import Iputils.SourcePriority

/-!
# What the source tag says

The position that a tool prints is followed by a tag that names its source. Tag and
position are written by five pieces of code, each of which decides on a flag of its
own. Beside the variables a register is kept of the source that each position was
taken from; none of the functions reads it. The tag agrees with the register except
for one answer of the bridge: a BrightSpace block alone, which the step that turns a
vector from the command line into a point of the surface takes for its own.
-/
set_option autoImplicit false

namespace Iputils.SourceTags
open ScanText CoordinateSource SourcePriority

inductive Source
  | myEcef
  | myCoord
  | bridge
  | geoIp
deriving Repr, DecidableEq

/-- Where the vector and the surface coordinates were taken from. -/
structure Register where
  ecef : Option Source := none
  geo : Option Source := none
deriving Repr, DecidableEq

def ecefTag : List Char := "[ecef]".toList
def coordTag : List Char := "[coord]".toList
def linkTag : List Char := "[brightlink]".toList
def linkEcefTag : List Char := "[brightlink:ecef]".toList
def geoIpPrefix : List Char := "[~geoIP".toList

section
variable {K : Type} (ops : FloatOps K)

/-- One round of the argument loop. A vector that cannot be read may still have been
stored in part. -/
def Register.apply (g : Register) : Arg → Register
  | .myEcef _ => { g with ecef := some .myEcef }
  | .myCoord text => if bsParseLatlon ops text = none then g else { g with geo := some .myCoord }
  | _ => g

def Register.ofArgs (args : List Arg) : Register := args.foldl (Register.apply ops) {}

/-- What `bl_glue_get_geo` writes. -/
def Register.link (g : Register) (v : Vars K) : Bridge K → Register
  | .ok fix =>
      if v.haveMyEcef ∨ v.myGeo.valid then g
      else
        { ecef := if fix.brightspace = none then g.ecef else some .bridge
          geo := if fix.wgs84 = none then g.geo else some .bridge }
  | _ => g

/-- The fall-through code: what `locate` does to the register. -/
def Register.locate [Zero K] (g : Register) (v : Vars K) (bridge : Bridge K)
    (geoIp : Option (K × K)) : Register :=
  let g := g.link v bridge
  let v := (blGlueGetGeo v bridge).1
  let ask := ¬ v.haveMyEcef ∧ ¬ v.myGeo.valid
  let g := if ask then { g with geo := some .geoIp } else g
  let v := if ask then { v with myGeo := bsGeolocate geoIp } else v
  if v.haveMyEcef ∧ ¬ v.myGeo.valid ∧ ¬ ops.isOrigin v.myEcef then { g with geo := g.ecef } else g

/-- The tag tells where the surface coordinates come from. -/
structure Truthful (bridge : Bridge K) (tag : List Char) (source : Option Source) : Prop where
  ecef : tag = ecefTag → source = some .myEcef
  coord : tag = coordTag → source = some .myCoord
  link : (tag = linkTag ∨ tag = linkEcefTag) ↔ source = some .bridge
  block : source = some .bridge →
    (tag = linkEcefTag ↔ ∃ fix, bridge = .ok fix ∧ fix.brightspace ≠ none)
  geoIp : geoIpPrefix.isPrefixOf tag = true ↔ source = some .geoIp

/-- The answer of the bridge is a BrightSpace block and nothing else. -/
def VectorAlone (bridge : Bridge K) : Prop :=
  ∃ e, bridge = .ok ⟨none, some e⟩

/-- The tag of the final `my_geo` of every run of the program is truthful. -/
def TagsTruthful [Zero K] (program : Program) (words : List (List Char)) (bridge : Bridge K)
    (geoIp : Option (K × K)) : Prop :=
  ∀ args v, commandLine program words = some args → parseArgs ops args = some v →
    Truthful bridge (CoordinateSource.locate ops v bridge geoIp).myGeo.tag
      ((Register.ofArgs ops args).locate ops v bridge geoIp).geo

/-- The variables and the register behind the argument loop. -/
structure Registered (g : Register) (v : Vars K) : Prop where
  ecef : v.haveMyEcef = true → g.ecef = some .myEcef
  geo : v.myGeo.valid = true ∧ v.myGeo.tag = coordTag ∧ g.geo = some .myCoord ∨
    v.myGeo.valid = false ∧ v.myGeo.tag = [] ∧ g.geo = none

variable {ops}

theorem registered_apply {g : Register} {v v' : Vars K} {arg : Arg} (h : Registered g v)
    (hv : v.apply ops arg = some v') : Registered (g.apply ops arg) v' := by
  cases arg with
  | help => cases hv
  | myEcef text =>
      cases hv
      exact ⟨fun _ => rfl, h.geo⟩
  | myCoord text =>
      cases hv
      cases hp : bsParseLatlon ops text with
      | none =>
          simp only [Register.apply, coordGeo, hp, if_true]
          exact h
      | some p =>
          simp only [Register.apply, coordGeo, hp, reduceCtorEq, if_false]
          exact ⟨h.ecef, Or.inl ⟨rfl, rfl, rfl⟩⟩
  | _ =>
      cases hv
      exact ⟨h.ecef, h.geo⟩

/-- All arguments. -/
theorem registered_argLoop {args : List Arg} : ∀ {g : Register} {v v' : Vars K}, Registered g v →
    argLoop ops args v = some v' → Registered (args.foldl (Register.apply ops) g) v' := by
  induction args with
  | nil =>
      intro g v v' h hv
      cases hv
      exact h
  | cons arg args ih =>
      intro g v v' h hv
      obtain ⟨w, hw, hv⟩ := Option.bind_eq_some_iff.mp hv
      exact ih (registered_apply h hw) hv

theorem registered_parseArgs [Zero K] {args : List Arg} {v : Vars K}
    (h : parseArgs ops args = some v) : Registered (Register.ofArgs ops args) v := by
  obtain ⟨w, hw, hv⟩ := Option.bind_eq_some_iff.mp h
  split_ifs at hv
  cases hv
  exact registered_argLoop ⟨fun h => absurd h (by simp [Vars.init]), Or.inr ⟨rfl, rfl, rfl⟩⟩ hw

section Pairs
variable (bridge : Bridge K)

/-- A tag that names neither the bridge nor geoIP, for a source that is neither. -/
theorem truthful_of_other {tag : List Char} {source : Option Source}
    (hecef : tag = ecefTag → source = some .myEcef)
    (hcoord : tag = coordTag → source = some .myCoord)
    (htag : ¬ (tag = linkTag ∨ tag = linkEcefTag) ∧ ¬ geoIpPrefix.isPrefixOf tag = true)
    (hsource : source ≠ some .bridge ∧ source ≠ some .geoIp) : Truthful bridge tag source where
  ecef := hecef
  coord := hcoord
  link := iff_of_false htag.1 hsource.1
  block := fun h => absurd h hsource.1
  geoIp := iff_of_false htag.2 hsource.2

theorem truthful_none : Truthful bridge [] none :=
  truthful_of_other bridge (fun h => absurd h (by decide +kernel))
    (fun h => absurd h (by decide +kernel)) (by decide +kernel) (by decide)

theorem truthful_ecef : Truthful bridge ecefTag (some .myEcef) :=
  truthful_of_other bridge (fun _ => rfl) (fun h => absurd h (by decide +kernel))
    (by decide +kernel) (by decide)

theorem truthful_coord : Truthful bridge coordTag (some .myCoord) :=
  truthful_of_other bridge (fun h => absurd h (by decide +kernel)) (fun _ => rfl)
    (by decide +kernel) (by decide)

theorem truthful_geoIp {tag : List Char} (h : geoIpPrefix.isPrefixOf tag = true) :
    Truthful bridge tag (some .geoIp) := by
  have hne : ∀ t, geoIpPrefix.isPrefixOf t = false → tag ≠ t := by
    intro t ht heq
    rw [heq, ht] at h
    cases h
  have hlink : ¬ (tag = linkTag ∨ tag = linkEcefTag) :=
    not_or.mpr ⟨hne linkTag (by decide +kernel), hne linkEcefTag (by decide +kernel)⟩
  exact ⟨fun heq => absurd heq (hne ecefTag (by decide +kernel)),
    fun heq => absurd heq (hne coordTag (by decide +kernel)), iff_of_false hlink (by decide),
    fun heq => absurd heq (by decide), iff_of_true h rfl⟩

/-- The two tags of the bridge, for answers with both forms of the position. -/
theorem truthful_link (p : K × K) (e : Option (Ecef K)) :
    Truthful (.ok ⟨some p, e⟩) (if e = none then linkTag else linkEcefTag) (some .bridge) := by
  have hblock : (∃ fix, Bridge.ok ⟨some p, e⟩ = .ok fix ∧ fix.brightspace ≠ none) ↔ e ≠ none := by
    constructor
    · intro hx
      rcases hx with ⟨fix, heq, hne⟩
      cases heq
      exact hne
    · exact fun hne => ⟨_, rfl, hne⟩
  have hcase : ∀ tag, (tag = linkTag ∧ e = none ∨ tag = linkEcefTag ∧ e ≠ none) →
      Truthful (.ok ⟨some p, e⟩) tag (some .bridge) := by
    intro tag hx
    rcases hx with ⟨rfl, he⟩ | ⟨rfl, he⟩
    · refine ⟨fun h => absurd h (by decide +kernel), fun h => absurd h (by decide +kernel),
        iff_of_true (Or.inl rfl) rfl, fun _ => ?_, iff_of_false (by decide +kernel) (by decide)⟩
      rw [hblock]
      exact iff_of_false (by decide +kernel) (not_not_intro he)
    · refine ⟨fun h => absurd h (by decide +kernel), fun h => absurd h (by decide +kernel),
        iff_of_true (Or.inr rfl) rfl, fun _ => ?_, iff_of_false (by decide +kernel) (by decide)⟩
      rw [hblock]
      exact iff_of_true rfl he
  apply hcase
  split_ifs with he
  · exact Or.inl ⟨rfl, he⟩
  · exact Or.inr ⟨rfl, he⟩

end Pairs

/-- An annotated geoIP tag is still one. -/
theorem prefix_annotate (reason : List Char) (g : Geo K)
    (h : geoIpPrefix.isPrefixOf g.tag = true) :
    geoIpPrefix.isPrefixOf (blGlueAnnotateTag reason g).tag = true := by
  unfold blGlueAnnotateTag
  split_ifs
  · exact h
  · exact h
  · rfl
  · exact h

/-- The command line gave a position: the bridge and geoIP are not asked. -/
theorem truthful_given [Zero K] {g : Register} {v : Vars K} (h : Registered g v)
    (hv : v.haveMyEcef = true ∨ v.myGeo.valid = true) (bridge : Bridge K)
    (geoIp : Option (K × K)) :
    Truthful bridge (CoordinateSource.locate ops v bridge geoIp).myGeo.tag
      (g.locate ops v bridge geoIp).geo := by
  have hbridge : blGlueGetGeo v bridge = (v, []) := by
    cases bridge <;> simp only [blGlueGetGeo, if_pos hv]
  have hlink : g.link v bridge = g := by
    cases bridge <;> simp only [Register.link, if_pos hv]
  have hask : ¬ (¬ v.haveMyEcef = true ∧ ¬ v.myGeo.valid = true) := fun hx => not_or.mpr hx hv
  simp only [CoordinateSource.locate, Register.locate, hbridge, hlink, if_neg hask,
    blGlueAnnotateTag, if_true]
  rcases h.geo with ⟨hvalid, htag, hgeo⟩ | ⟨hvalid, htag, hgeo⟩
  · simp only [hvalid, not_true_eq_false, and_false, false_and, if_false, htag, hgeo]
    exact truthful_coord bridge
  · have hhave : v.haveMyEcef = true := by simpa [hvalid] using hv
    simp only [hvalid, hhave, Bool.false_eq_true, not_false_eq_true, and_true, true_and, if_true,
      bsEcefToGeo]
    cases ops.isOrigin v.myEcef with
    | true =>
        simp only [not_true_eq_false, if_true, if_false, htag, hgeo]
        exact truthful_none bridge
    | false =>
        simp only [Bool.false_eq_true, not_false_eq_true, if_true, if_false, h.ecef hhave]
        exact truthful_ecef bridge

section Asked
variable [Zero K] {g : Register} {v : Vars K} (hhave : v.haveMyEcef = false)
  (hvalid : v.myGeo.valid = false)
include hhave hvalid

/-- The bridge knows nothing, and geoIP is asked. -/
theorem truthful_unlinked {bridge : Bridge K} (hb : (blGlueGetGeo v bridge).1 = v)
    (geoIp : Option (K × K)) :
    Truthful bridge (CoordinateSource.locate ops v bridge geoIp).myGeo.tag
      (g.locate ops v bridge geoIp).geo := by
  have htag : geoIpPrefix.isPrefixOf (bsGeolocate geoIp).tag = true := by
    cases geoIp <;> rfl
  simp only [CoordinateSource.locate, Register.locate, hb, hhave, hvalid, Bool.false_eq_true,
    not_false_eq_true, and_self, if_true, false_and, if_false]
  exact truthful_geoIp _ (prefix_annotate _ _ htag)

/-- The bridge gives surface coordinates, with or without a vector. -/
theorem truthful_linked (p : K × K) (e : Option (Ecef K)) (geoIp : Option (K × K)) :
    Truthful (.ok ⟨some p, e⟩) (CoordinateSource.locate ops v (.ok ⟨some p, e⟩) geoIp).myGeo.tag
      (g.locate ops v (.ok ⟨some p, e⟩) geoIp).geo := by
  have htrue := truthful_link p e
  cases e with
  | none =>
      rw [if_pos rfl] at htrue
      simp only [CoordinateSource.locate, Register.locate, Register.link, blGlueGetGeo, hhave, hvalid,
        blGlueAnnotateTag, Bool.false_eq_true, or_self, not_true_eq_false, and_false, false_and,
        if_false, if_true, reduceCtorEq]
      exact htrue
  | some e =>
      rw [if_neg (by simp)] at htrue
      simp only [CoordinateSource.locate, Register.locate, Register.link, blGlueGetGeo, hhave, hvalid,
        blGlueAnnotateTag, Bool.false_eq_true, or_self, not_true_eq_false, and_false, false_and,
        if_false, if_true, reduceCtorEq]
      exact htrue

/-- A vector alone: its tag is overwritten, or it is left without a position. -/
theorem not_truthful_vector (hgeo : g.geo = none) (e : Ecef K) (geoIp : Option (K × K)) :
    ¬ Truthful (.ok ⟨none, some e⟩)
      (CoordinateSource.locate ops v (.ok ⟨none, some e⟩) geoIp).myGeo.tag
      (g.locate ops v (.ok ⟨none, some e⟩) geoIp).geo := by
  simp only [CoordinateSource.locate, Register.locate, Register.link, blGlueGetGeo, hhave, hvalid,
    blGlueAnnotateTag, Bool.false_eq_true, or_self, not_true_eq_false, not_false_eq_true,
    and_true, true_and, if_false, if_true, reduceCtorEq, hgeo, bsEcefToGeo]
  intro htrue
  cases ho : ops.isOrigin e with
  | true =>
      simp only [ho, not_true_eq_false, if_true, if_false] at htrue
      exact absurd (htrue.link.mp (Or.inr rfl)) (by decide)
  | false =>
      simp only [ho, Bool.false_eq_true, not_false_eq_true, if_true, if_false] at htrue
      exact absurd (htrue.ecef rfl) (by decide)

end Asked

/-- Nothing was given on the command line. -/
theorem truthful_asked [Zero K] {g : Register} {v : Vars K} (h : Registered g v)
    (hv : ¬ (v.haveMyEcef = true ∨ v.myGeo.valid = true)) (bridge : Bridge K)
    (geoIp : Option (K × K)) :
    Truthful bridge (CoordinateSource.locate ops v bridge geoIp).myGeo.tag
      (g.locate ops v bridge geoIp).geo ↔ ¬ VectorAlone bridge := by
  obtain ⟨hhave, hvalid⟩ := not_or.mp hv
  rw [Bool.not_eq_true] at hhave hvalid
  have hgeo : g.geo = none := by
    rcases h.geo with ⟨hx, -⟩ | ⟨-, -, hgeo⟩
    · exact absurd hx (by simp [hvalid])
    · exact hgeo
  cases bridge with
  | absent =>
      exact iff_of_true (truthful_unlinked hhave hvalid rfl geoIp) (by simp [VectorAlone])
  | failed status =>
      have hb : (blGlueGetGeo v (.failed status)).1 = v := by
        simp only [blGlueGetGeo]
        split_ifs
        rfl
      exact iff_of_true (truthful_unlinked hhave hvalid hb geoIp) (by simp [VectorAlone])
  | ok fix =>
      obtain ⟨wgs84, brightspace⟩ := fix
      cases wgs84 with
      | some p =>
          exact iff_of_true (truthful_linked hhave hvalid p brightspace geoIp)
            (by simp [VectorAlone])
      | none =>
          cases brightspace with
          | none =>
              have hb : (blGlueGetGeo v (.ok ⟨none, none⟩)).1 = v := by
                simp only [blGlueGetGeo]
                split_ifs
                rfl
              exact iff_of_true (truthful_unlinked hhave hvalid hb geoIp) (by simp [VectorAlone])
          | some e =>
              exact iff_of_false (not_truthful_vector hhave hvalid hgeo e geoIp)
                (not_not_intro ⟨e, rfl⟩)

/-- The tags of a run are truthful unless the bridge is asked and answers with a
BrightSpace block alone. -/
theorem tags_truthful_iff [Zero K] (program : Program) (words : List (List Char))
    (bridge : Bridge K) (geoIp : Option (K × K)) :
    TagsTruthful ops program words bridge geoIp ↔
      ∀ args, commandLine program words = some args → Accepted args →
        ¬ (heldEcef ops args = none ∧ givenCoord ops args = none ∧ VectorAlone bridge) := by
  unfold TagsTruthful
  refine forall_congr' fun args => ?_
  constructor
  · intro h hcl hacc
    obtain ⟨v, hv⟩ := @parseArgs_of_accepted K ops _ args hacc
    have hreg := registered_parseArgs hv
    have hmine := (parseArgs_loaded hv).1.mine
    rintro ⟨hecef, hcoord, halone⟩
    have hempty : ¬ (v.haveMyEcef = true ∨ v.myGeo.valid = true) := by
      rw [← empty_held v.haveMyEcef v.myEcef v.myGeo]
      change (Vars.mine v).empty = true
      rw [hmine, hecef, hcoord]
      rfl
    exact (truthful_asked hreg hempty bridge geoIp).mp (h v hcl hv) halone
  · intro h v hcl hv
    have hreg := registered_parseArgs hv
    obtain ⟨hl, hacc⟩ := parseArgs_loaded hv
    by_cases hgiven : v.haveMyEcef = true ∨ v.myGeo.valid = true
    · exact truthful_given hreg hgiven bridge geoIp
    · refine (truthful_asked hreg hgiven bridge geoIp).mpr fun halone => ?_
      have hempty : (Vars.mine v).empty = true := (empty_held _ _ _).mpr hgiven
      rw [hl.mine] at hempty
      simp only [Position.empty, Bool.and_eq_true, Option.isNone_iff_eq_none] at hempty
      exact h hcl hacc ⟨hempty.1, hempty.2, halone⟩

end

/-- The bridge knows the vector of the point on the equator at longitude zero, and no
surface coordinates. -/
theorem vector_alone_tagged_ecef :
    ¬ TagsTruthful axisOps .bping ["host".toList] (.ok ⟨none, some ⟨1, 0, 0⟩⟩) none := by
  intro h
  have hargs : commandLine .bping ["host".toList] = some [.dest] := by decide +kernel
  have htrue := h [.dest] { (Vars.init : Vars ℤ) with dest := true } hargs rfl
  have hsource := htrue.ecef (by decide +kernel)
  exact absurd hsource (by decide +kernel)

end Iputils.SourceTags
