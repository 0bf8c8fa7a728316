import Mathlib.Algebra.Ring.Int.Defs
import Iputils.CoordinateSource

/-!
# The priority of the coordinate sources

The sources in the order of their priority are `--my-ecef`, `--my-coord`, the
bridge and geoIP, and the first one that gives a position should win. The code
keeps the vector and the surface coordinates apart, so that `--my-coord` fills
the latter although a vector was given, and a `--my-ecef` that cannot be read
drops a vector that was read before. The main result says exactly when a
position that is used is not the one of the first source.
-/
set_option autoImplicit false

namespace Iputils.SourcePriority
open ScanText CoordinateSource

/-- A position in the forms in which a source gives it. -/
structure Position (K : Type) where
  ecef : Option (Ecef K)
  geo : Option (K × K)
deriving Repr, DecidableEq

section
variable {K : Type}

def Position.empty (p : Position K) : Bool := p.ecef.isNone && p.geo.isNone

/-- The first position that is given at all. -/
def Position.or (p q : Position K) : Position K := if p.empty then q else p

def Position.has (p : Position K) : Use K → Prop
  | .chord e => p.ecef = some e
  | .surface lat lon => p.geo = some (lat, lon)

theorem Position.or_assoc (p q r : Position K) : (p.or q).or r = p.or (q.or r) := by
  unfold Position.or
  by_cases hp : p.empty
  · simp [hp]
  · simp [hp]

def Arg.myEcef? : Arg → Option (List Char)
  | .myEcef text => some text
  | _ => none

def Arg.myCoord? : Arg → Option (List Char)
  | .myCoord text => some text
  | _ => none

def Arg.targetEcef? : Arg → Option (List Char)
  | .targetEcef text => some text
  | _ => none

def Arg.targetCoord? : Arg → Option (List Char)
  | .targetCoord text => some text
  | _ => none

def Arg.anchor? : Arg → Option (List Char)
  | .anchor text => some text
  | _ => none

/-- The last text that can be read. -/
def lastRead {α : Type} (read : List Char → Option α) (texts : List (List Char)) : Option α :=
  (texts.filterMap read).getLast?

/-- What the last text is read as. -/
def readLast {α : Type} (read : List Char → Option α) (texts : List (List Char)) : Option α :=
  texts.getLast?.bind read

theorem lastRead_texts {α : Type} (read : List Char → Option α) (sel : Arg → Option (List Char))
    (args : List Arg) (arg : Arg) :
    lastRead read ((args ++ [arg]).filterMap sel) =
      ((sel arg).bind read).or (lastRead read (args.filterMap sel)) := by
  unfold lastRead
  cases hs : sel arg with
  | none => simp [hs]
  | some text =>
      cases hr : read text with
      | none => simp [hs, hr]
      | some a => simp [hs, hr]

theorem readLast_texts {α : Type} (read : List Char → Option α) (sel : Arg → Option (List Char))
    (args : List Arg) (arg : Arg) :
    readLast read ((args ++ [arg]).filterMap sel) =
      (sel arg).elim (readLast read (args.filterMap sel)) read := by
  unfold readLast
  cases hs : sel arg with
  | none => simp [hs]
  | some text => simp [hs]

/-- If the last text can be read, it is the last that can be read. -/
theorem lastRead_of_readLast {α : Type} {read : List Char → Option α} {texts : List (List Char)}
    {a : α} (h : readLast read texts = some a) : lastRead read texts = some a := by
  induction texts using List.reverseRecOn with
  | nil => simp [readLast] at h
  | append_singleton texts text _ =>
      have hr : read text = some a := by simpa [readLast] using h
      simp [lastRead, hr]

variable (ops : FloatOps K)

def readEcef (text : List Char) : Option (Ecef K) :=
  match scanNumbers 3 text with
  | [x, y, z] => some ⟨ops.value x, ops.value y, ops.value z⟩
  | _ => none

/-- The point of the surface in the direction of a vector. -/
def surfacePoint (e : Ecef K) : Option (K × K) :=
  if ops.isOrigin e then none else some (ops.latitude e, ops.longitude e)

/-- A vector alone also gives a point of the surface. -/
def Position.complete (p : Position K) : Position K :=
  ⟨p.ecef, p.geo.or (p.ecef.bind (surfacePoint ops))⟩

def bridgePosition : Bridge K → Position K
  | .ok fix => ⟨fix.brightspace, fix.wgs84⟩
  | .absent | .failed _ => ⟨none, none⟩

/-- The vector of the last `--my-ecef` that can be read. -/
def givenEcef (args : List Arg) : Option (Ecef K) :=
  lastRead (readEcef ops) (args.filterMap Arg.myEcef?)

/-- What the last `--my-ecef` is read as. -/
def heldEcef (args : List Arg) : Option (Ecef K) :=
  readLast (readEcef ops) (args.filterMap Arg.myEcef?)

def givenCoord (args : List Arg) : Option (K × K) :=
  lastRead (bsParseLatlon ops) (args.filterMap Arg.myCoord?)

/-- The position from the sources below `--my-ecef`. -/
def lowerPosition (args : List Arg) (bridge : Bridge K) (geoIp : Option (K × K)) : Position K :=
  ((⟨none, givenCoord ops args⟩ : Position K).or
    ((bridgePosition bridge).or ⟨none, geoIp⟩)).complete ops

/-- The position from the first source that gives one. -/
def bestPosition (args : List Arg) (bridge : Bridge K) (geoIp : Option (K × K)) : Position K :=
  match givenEcef ops args with
  | some e => (⟨some e, none⟩ : Position K).complete ops
  | none => lowerPosition ops args bridge geoIp

/-- Every position that a run uses is the one of the first source. -/
def PositionsRight [Zero K] (program : Program) (words : List (List Char)) (bridge : Bridge K)
    (geoIp : Option (K × K)) : Prop :=
  ∀ args, commandLine program words = some args → ∀ net,
    ∀ use ∈ positions ops program words bridge geoIp net,
      (bestPosition ops args bridge geoIp).has use

/-- The flags are complete: a destination and no request for help. -/
def Accepted (args : List Arg) : Prop := Arg.help ∉ args ∧ Arg.dest ∈ args

/-- A lower source fills the surface coordinates with another point. -/
def SurfaceDisplaced (args : List Arg) (bridge : Bridge K) (geoIp : Option (K × K)) : Prop :=
  ∃ e p, givenEcef ops args = some e ∧
    (givenCoord ops args ≠ none ∨ heldEcef ops args = none) ∧
    (lowerPosition ops args bridge geoIp).geo = some p ∧ surfacePoint ops e ≠ some p

/-- The vector of the bridge replaces one that was read and dropped. -/
def VectorDisplaced (args : List Arg) (bridge : Bridge K) (geoIp : Option (K × K)) : Prop :=
  ∃ e b, givenEcef ops args = some e ∧ heldEcef ops args = none ∧
    (lowerPosition ops args bridge geoIp).ecef = some b ∧ e ≠ b

/-- `bping` knows both vectors and takes the chord between them. -/
def TakesChord (args : List Arg) (bridge : Bridge K) (geoIp : Option (K × K)) : Prop :=
  readLast (readEcef ops) (args.filterMap Arg.targetEcef?) ≠ none ∧
    (heldEcef ops args ≠ none ∨ (lowerPosition ops args bridge geoIp).ecef ≠ none)

/-- The target of `bping` has, or may get, surface coordinates. -/
def TargetOnSurface (args : List Arg) : Prop :=
  lastRead (bsParseLatlon ops) (args.filterMap Arg.targetCoord?) ≠ none ∨
    ∀ e, readLast (readEcef ops) (args.filterMap Arg.targetEcef?) = some e → ¬ ops.isOrigin e

/-- The number of anchors on the command line of `baudit`. -/
def anchorCount (args : List Arg) : ℕ := ((args.filterMap Arg.anchor?).filter parseAnchor).length

/-- A position that is used is not the one of the first source. -/
def Displaced (program : Program) (args : List Arg) (bridge : Bridge K) (geoIp : Option (K × K)) :
    Prop :=
  match program with
  | .bping =>
      (TakesChord ops args bridge geoIp ∧ VectorDisplaced ops args bridge geoIp) ∨
      (¬ TakesChord ops args bridge geoIp ∧ TargetOnSurface ops args ∧
        SurfaceDisplaced ops args bridge geoIp)
  | .btraceroute | .bmtr => SurfaceDisplaced ops args bridge geoIp
  | .baudit => anchorCount args < maxAnchors ∧ SurfaceDisplaced ops args bridge geoIp

/-- The position in the variables. -/
def held (haveEcef : Bool) (e : Ecef K) (g : Geo K) : Position K :=
  ⟨if haveEcef then some e else none, if g.valid then some (g.lat, g.lon) else none⟩

def Vars.mine (v : Vars K) : Position K := held v.haveMyEcef v.myEcef v.myGeo

def Vars.target (v : Vars K) : Position K := held v.haveTgtEcef v.tgtEcef v.tgtGeo

/-- The variables hold what the arguments so far have given. -/
structure Loaded (args : List Arg) (v : Vars K) : Prop where
  mine : Vars.mine v = ⟨heldEcef ops args, givenCoord ops args⟩
  target : Vars.target v = ⟨readLast (readEcef ops) (args.filterMap Arg.targetEcef?),
    lastRead (bsParseLatlon ops) (args.filterMap Arg.targetCoord?)⟩
  anchors : v.nanchors = min (anchorCount args) maxAnchors
  dest : v.dest = true ↔ Arg.dest ∈ args
  help : Arg.help ∉ args

variable {ops}

theorem bsParseEcef_read (text : List Char) (e : Ecef K) :
    (if (bsParseEcef ops text e).2 then some (bsParseEcef ops text e).1 else none) =
      readEcef ops text := by
  unfold bsParseEcef readEcef
  split <;> simp_all

theorem held_parse (text : List Char) (e : Ecef K) (g : Geo K) :
    held (bsParseEcef ops text e).2 (bsParseEcef ops text e).1 g =
      ⟨readEcef ops text, (held false e g).geo⟩ := by
  rw [← bsParseEcef_read text e]
  rfl

theorem held_coord (haveEcef : Bool) (e : Ecef K) (g : Geo K) (text : List Char) :
    held haveEcef e (coordGeo ops text g) =
      ⟨(held haveEcef e g).ecef, (bsParseLatlon ops text).or (held haveEcef e g).geo⟩ := by
  unfold coordGeo
  cases bsParseLatlon ops text with
  | none => simp [held]
  | some p => simp [held]

theorem loaded_init [Zero K] : Loaded ops [] (Vars.init : Vars K) where
  mine := rfl
  target := rfl
  anchors := rfl
  dest := by simp [Vars.init]
  help := by simp

theorem mine_apply {args : List Arg} {v v' : Vars K} {arg : Arg}
    (h : Vars.mine v = ⟨heldEcef ops args, givenCoord ops args⟩)
    (hv : v.apply ops arg = some v') :
    Vars.mine v' = ⟨heldEcef ops (args ++ [arg]), givenCoord ops (args ++ [arg])⟩ := by
  have hecef : heldEcef ops args = (Vars.mine v).ecef := by rw [h]
  have hcoord : givenCoord ops args = (Vars.mine v).geo := by rw [h]
  unfold heldEcef givenCoord at *
  rw [readLast_texts, lastRead_texts, hecef, hcoord]
  cases arg with
  | help => cases hv
  | myEcef text =>
      cases hv
      exact held_parse text v.myEcef v.myGeo
  | myCoord text =>
      cases hv
      exact held_coord v.haveMyEcef v.myEcef v.myGeo text
  | _ =>
      cases hv
      rfl

theorem target_apply {args : List Arg} {v v' : Vars K} {arg : Arg}
    (h : Vars.target v = ⟨readLast (readEcef ops) (args.filterMap Arg.targetEcef?),
      lastRead (bsParseLatlon ops) (args.filterMap Arg.targetCoord?)⟩)
    (hv : v.apply ops arg = some v') :
    Vars.target v' = ⟨readLast (readEcef ops) ((args ++ [arg]).filterMap Arg.targetEcef?),
      lastRead (bsParseLatlon ops) ((args ++ [arg]).filterMap Arg.targetCoord?)⟩ := by
  rw [readLast_texts, lastRead_texts]
  have hecef := congrArg Position.ecef h
  have hcoord := congrArg Position.geo h
  dsimp only at hecef hcoord
  rw [← hecef, ← hcoord]
  cases arg with
  | help => cases hv
  | targetEcef text =>
      cases hv
      exact held_parse text v.tgtEcef v.tgtGeo
  | targetCoord text =>
      cases hv
      exact held_coord v.haveTgtEcef v.tgtEcef v.tgtGeo text
  | _ =>
      cases hv
      rfl

theorem anchorCount_snoc (args : List Arg) (arg : Arg) : anchorCount (args ++ [arg]) =
    anchorCount args + if (Arg.anchor? arg).any parseAnchor then 1 else 0 := by
  unfold anchorCount
  cases hs : Arg.anchor? arg with
  | none => simp [hs]
  | some text =>
      cases hp : parseAnchor text with
      | false => simp [hs, hp]
      | true => simp [hs, hp]

theorem anchors_apply {args : List Arg} {v v' : Vars K} {arg : Arg}
    (h : v.nanchors = min (anchorCount args) maxAnchors) (hv : v.apply ops arg = some v') :
    v'.nanchors = min (anchorCount (args ++ [arg])) maxAnchors := by
  rw [anchorCount_snoc]
  cases arg with
  | help => cases hv
  | anchor text =>
      cases hv
      cases hp : parseAnchor text with
      | false => simp [Arg.anchor?, hp, h]
      | true =>
          simp only [Arg.anchor?, hp, and_true, Option.any_some, if_true]
          split_ifs <;> omega
  | _ =>
      cases hv
      exact h

/-- One argument. -/
theorem loaded_apply {args : List Arg} {v v' : Vars K} {arg : Arg} (h : Loaded ops args v)
    (hv : v.apply ops arg = some v') : Loaded ops (args ++ [arg]) v' := by
  constructor
  · exact mine_apply h.mine hv
  · exact target_apply h.target hv
  · exact anchors_apply h.anchors hv
  · cases arg with
    | help => cases hv
    | dest =>
        cases hv
        simp
    | _ =>
        cases hv
        simpa using h.dest
  · cases arg with
    | help => cases hv
    | _ => simpa using h.help

/-- All arguments. -/
theorem loaded_argLoop {args : List Arg} : ∀ {pre : List Arg} {v v' : Vars K}, Loaded ops pre v →
    argLoop ops args v = some v' → Loaded ops (pre ++ args) v' := by
  induction args with
  | nil =>
      intro pre v v' h hv
      cases hv
      rw [List.append_nil]
      exact h
  | cons arg args ih =>
      intro pre v v' h hv
      obtain ⟨w, hw, hv⟩ := Option.bind_eq_some_iff.mp hv
      have hstep := ih (loaded_apply h hw) hv
      rwa [List.append_assoc, List.singleton_append] at hstep

/-- The loop ends the program only for a request for help. -/
theorem argLoop_isSome {args : List Arg} (h : Arg.help ∉ args) :
    ∀ v : Vars K, ∃ v', argLoop ops args v = some v' := by
  induction args with
  | nil => exact fun v => ⟨v, rfl⟩
  | cons arg args ih =>
      intro v
      have hmem := List.mem_cons.not.mp h
      have hne : Arg.help ∉ args := fun hm => hmem (Or.inr hm)
      cases arg with
      | help => exact absurd (Or.inl rfl) hmem
      | _ => exact ih hne _

theorem parseArgs_loaded [Zero K] {args : List Arg} {v : Vars K}
    (h : parseArgs ops args = some v) : Loaded ops args v ∧ Accepted args := by
  obtain ⟨w, hw, hv⟩ := Option.bind_eq_some_iff.mp h
  have hl : Loaded ops args w := loaded_argLoop loaded_init hw
  split_ifs at hv with hd
  cases hv
  exact ⟨hl, hl.help, hl.dest.mp hd⟩

theorem parseArgs_of_accepted [Zero K] {args : List Arg} (h : Accepted args) :
    ∃ v : Vars K, parseArgs ops args = some v := by
  obtain ⟨v, hv⟩ := @argLoop_isSome K ops args h.1 Vars.init
  have hl : Loaded ops args v := loaded_argLoop loaded_init hv
  refine ⟨v, ?_⟩
  rw [parseArgs, hv, Option.bind_some, if_pos (hl.dest.mpr h.2)]

theorem empty_held (b : Bool) (e : Ecef K) (g : Geo K) :
    (held b e g).empty = true ↔ ¬ (b = true ∨ g.valid = true) := by
  cases b <;> cases h : g.valid <;> simp [held, Position.empty, h]

theorem mine_bridge (v : Vars K) (bridge : Bridge K) :
    Vars.mine (blGlueGetGeo v bridge).1 = (Vars.mine v).or (bridgePosition bridge) := by
  by_cases hv : v.haveMyEcef = true ∨ v.myGeo.valid = true
  · have hne : ¬ (Vars.mine v).empty = true := fun h => (empty_held _ _ _).mp h hv
    rw [Position.or, if_neg hne]
    cases bridge with
    | absent => rfl
    | failed status => simp only [blGlueGetGeo, if_pos hv]
    | ok fix => simp only [blGlueGetGeo, if_pos hv]
  · have he : (Vars.mine v).empty = true := (empty_held _ _ _).mpr hv
    obtain ⟨h₁, h₂⟩ := not_or.mp hv
    have hmine : Vars.mine v = ⟨none, none⟩ := by simp [Vars.mine, held, h₁, h₂]
    rw [Position.or, if_pos he]
    cases bridge with
    | absent => exact hmine
    | failed status =>
        simp only [blGlueGetGeo, if_neg hv]
        exact hmine
    | ok fix =>
        obtain ⟨wgs84, brightspace⟩ := fix
        cases wgs84 with
        | none => cases brightspace <;> simp [blGlueGetGeo, Vars.mine, held, h₁, h₂, bridgePosition]
        | some p => cases brightspace <;> simp [blGlueGetGeo, Vars.mine, held, h₁, h₂, bridgePosition]

/-- The step that asks geoIP. -/
theorem held_geoIp [Zero K] (b : Bool) (e : Ecef K) (g : Geo K) (answer : Option (K × K)) :
    held b e (if ¬ b = true ∧ ¬ g.valid = true then bsGeolocate answer else g) =
      (held b e g).or ⟨none, answer⟩ := by
  by_cases hv : b = true ∨ g.valid = true
  · have hne : ¬ (held b e g).empty = true := fun h => (empty_held _ _ _).mp h hv
    rw [Position.or, if_neg hne, if_neg (fun h => (not_or.mpr h) hv)]
  · have he : (held b e g).empty = true := (empty_held _ _ _).mpr hv
    obtain ⟨h₁, h₂⟩ := not_or.mp hv
    rw [Position.or, if_pos he, if_pos ⟨h₁, h₂⟩]
    cases answer <;> simp [held, h₁, bsGeolocate]

/-- The step that turns a vector into a point of the surface. -/
theorem held_complete (b : Bool) (e : Ecef K) (g : Geo K) (tag : List Char) :
    held b e (if b = true ∧ ¬ g.valid = true then bsEcefToGeo ops e g tag else g) =
      (held b e g).complete ops := by
  cases b with
  | false => simp [held, Position.complete]
  | true =>
      cases hg : g.valid with
      | true => simp [held, Position.complete, hg]
      | false =>
          cases ho : ops.isOrigin e <;>
            simp [held, Position.complete, bsEcefToGeo, surfacePoint, hg, ho]

theorem held_annotate (reason : List Char) (b : Bool) (e : Ecef K) (g : Geo K) :
    held b e (blGlueAnnotateTag reason g) = held b e g := by
  unfold blGlueAnnotateTag
  split_ifs <;> rfl

theorem mine_update (c : Prop) [Decidable c] (v : Vars K) (g : Geo K) :
    Vars.mine (if c then { v with myGeo := g } else v) =
      held v.haveMyEcef v.myEcef (if c then g else v.myGeo) := by
  split_ifs <;> rfl

theorem target_update (c : Prop) [Decidable c] (v : Vars K) (g : Geo K) :
    Vars.target (if c then { v with tgtGeo := g } else v) =
      held v.haveTgtEcef v.tgtEcef (if c then g else v.tgtGeo) := by
  split_ifs <;> rfl

/-- The position that the four programs end up with. -/
theorem mine_locate [Zero K] (v : Vars K) (bridge : Bridge K) (geoIp : Option (K × K)) :
    Vars.mine (locate ops v bridge geoIp) =
      ((Vars.mine v).or ((bridgePosition bridge).or ⟨none, geoIp⟩)).complete ops := by
  have hgeo := fun w : Vars K => (mine_update _ w (bsGeolocate geoIp)).trans
    (held_geoIp w.haveMyEcef w.myEcef w.myGeo geoIp)
  have hecef := fun w : Vars K => (mine_update _ w _).trans
    (@held_complete K ops w.haveMyEcef w.myEcef w.myGeo "[ecef]".toList)
  refine (held_annotate _ _ _ _).trans ((hecef _).trans (congrArg (Position.complete ops) ?_))
  refine (hgeo _).trans ?_
  rw [← Position.or_assoc, ← mine_bridge]
  rfl

/-- The target of `bping` in the end. -/
theorem target_locateTarget [Zero K] (v : Vars K) (answer : Option (K × K)) :
    Vars.target (locateTarget ops v answer) =
      ((Vars.target v).or ⟨none, answer⟩).complete ops := by
  have hgeo := (target_update _ v (bsGeolocate answer)).trans
    (held_geoIp v.haveTgtEcef v.tgtEcef v.tgtGeo answer)
  have hecef := fun w : Vars K => (target_update _ w _).trans
    (@held_complete K ops w.haveTgtEcef w.tgtEcef w.tgtGeo "[ecef]".toList)
  exact (hecef _).trans (congrArg (Position.complete ops) hgeo)

theorem target_bridge (v : Vars K) (bridge : Bridge K) :
    Vars.target (blGlueGetGeo v bridge).1 = Vars.target v ∧
      (blGlueGetGeo v bridge).1.nanchors = v.nanchors := by
  cases bridge with
  | absent => exact ⟨rfl, rfl⟩
  | failed status =>
      simp only [blGlueGetGeo]
      split_ifs <;> exact ⟨rfl, rfl⟩
  | ok fix =>
      obtain ⟨wgs84, brightspace⟩ := fix
      simp only [blGlueGetGeo]
      split_ifs
      · exact ⟨rfl, rfl⟩
      · cases wgs84 <;> cases brightspace <;> exact ⟨rfl, rfl⟩

/-- Our own position is found without touching anything else. -/
theorem target_locate [Zero K] (v : Vars K) (bridge : Bridge K) (geoIp : Option (K × K)) :
    Vars.target (locate ops v bridge geoIp) = Vars.target v ∧
      (locate ops v bridge geoIp).nanchors = v.nanchors := by
  rw [← (target_bridge v bridge).1, ← (target_bridge v bridge).2]
  simp only [locate]
  split_ifs <;> exact ⟨rfl, rfl⟩

theorem mine_locateTarget [Zero K] (v : Vars K) (answer : Option (K × K)) :
    Vars.mine (locateTarget ops v answer) = Vars.mine v := by
  simp only [locateTarget]
  split_ifs <;> rfl

/-- The position in the variables in the end. -/
def finalPosition (ops : FloatOps K) (args : List Arg) (bridge : Bridge K)
    (geoIp : Option (K × K)) : Position K :=
  ((⟨heldEcef ops args, givenCoord ops args⟩ : Position K).or
    ((bridgePosition bridge).or ⟨none, geoIp⟩)).complete ops

theorem finalPosition_dropped {args : List Arg} {bridge : Bridge K} {geoIp : Option (K × K)}
    (h : heldEcef ops args = none) :
    finalPosition ops args bridge geoIp = lowerPosition ops args bridge geoIp := by
  rw [finalPosition, h]
  rfl

theorem finalPosition_held {args : List Arg} {bridge : Bridge K} {geoIp : Option (K × K)}
    {e : Ecef K} (h : heldEcef ops args = some e) :
    finalPosition ops args bridge geoIp =
      ⟨some e, (givenCoord ops args).or (surfacePoint ops e)⟩ := by
  rw [finalPosition, h]
  rfl

theorem bestPosition_given {args : List Arg} {bridge : Bridge K} {geoIp : Option (K × K)}
    {e : Ecef K} (h : givenEcef ops args = some e) :
    bestPosition ops args bridge geoIp = ⟨some e, surfacePoint ops e⟩ := by
  rw [bestPosition, h]
  rfl

theorem lowerPosition_coord {args : List Arg} {bridge : Bridge K} {geoIp : Option (K × K)}
    {c : K × K} (h : givenCoord ops args = some c) :
    lowerPosition ops args bridge geoIp = ⟨none, some c⟩ := by
  rw [lowerPosition, h]
  rfl

theorem givenEcef_of_held {args : List Arg} {e : Ecef K} (h : heldEcef ops args = some e) :
    givenEcef ops args = some e := lastRead_of_readLast h

theorem finalPosition_best {args : List Arg} {bridge : Bridge K} {geoIp : Option (K × K)}
    (h : givenEcef ops args = none) :
    finalPosition ops args bridge geoIp = bestPosition ops args bridge geoIp := by
  have hh : heldEcef ops args = none := by
    by_contra hne
    obtain ⟨e, he⟩ := Option.ne_none_iff_exists'.mp hne
    rw [givenEcef_of_held he] at h
    cases h
  rw [finalPosition_dropped hh, bestPosition, h]

/-- The surface coordinates are those of the first source unless displaced. -/
theorem surface_right_iff (args : List Arg) (bridge : Bridge K) (geoIp : Option (K × K)) :
    (∀ p, (finalPosition ops args bridge geoIp).geo = some p →
      (bestPosition ops args bridge geoIp).geo = some p) ↔
    ¬ SurfaceDisplaced ops args bridge geoIp := by
  constructor
  · intro h hx
    rcases hx with ⟨e, p, hg, hor, hp, hne⟩
    rw [bestPosition_given hg] at h
    refine hne (h p ?_)
    cases hh : heldEcef ops args with
    | none => rw [finalPosition_dropped hh, hp]
    | some e' =>
        have hc := hor.resolve_right (by simp [hh])
        obtain ⟨c, hc⟩ := Option.ne_none_iff_exists'.mp hc
        rw [lowerPosition_coord hc] at hp
        rw [finalPosition_held hh, hc]
        exact hp
  · intro h p hp
    cases hg : givenEcef ops args with
    | none =>
        rw [finalPosition_best hg] at hp
        exact hp
    | some e =>
        rw [bestPosition_given hg]
        by_contra hne
        cases hh : heldEcef ops args with
        | none =>
            rw [finalPosition_dropped hh] at hp
            exact h ⟨e, p, hg, Or.inr hh, hp, hne⟩
        | some e' =>
            obtain rfl : e = e' := Option.some.inj (hg.symm.trans (givenEcef_of_held hh))
            rw [finalPosition_held hh] at hp
            cases hc : givenCoord ops args with
            | none =>
                rw [hc] at hp
                exact hne hp
            | some c =>
                rw [hc] at hp
                refine h ⟨e, p, hg, Or.inl (by simp [hc]), ?_, hne⟩
                rw [lowerPosition_coord hc]
                exact hp

/-- The vector is that of the first source unless displaced. -/
theorem vector_right_iff (args : List Arg) (bridge : Bridge K) (geoIp : Option (K × K)) :
    (∀ b, (finalPosition ops args bridge geoIp).ecef = some b →
      (bestPosition ops args bridge geoIp).ecef = some b) ↔
    ¬ VectorDisplaced ops args bridge geoIp := by
  constructor
  · intro h hx
    rcases hx with ⟨e, b, hg, hh, hb, hne⟩
    rw [bestPosition_given hg, finalPosition_dropped hh] at h
    exact hne (Option.some.inj (h b hb))
  · intro h b hb
    cases hg : givenEcef ops args with
    | none =>
        rw [finalPosition_best hg] at hb
        exact hb
    | some e =>
        rw [bestPosition_given hg]
        cases hh : heldEcef ops args with
        | none =>
            rw [finalPosition_dropped hh] at hb
            by_contra hne
            exact h ⟨e, b, hg, hh, hb, fun heq => hne (congrArg some heq)⟩
        | some e' =>
            obtain rfl : e = e' := Option.some.inj (hg.symm.trans (givenEcef_of_held hh))
            rw [finalPosition_held hh] at hb
            exact hb

theorem ownSurface_eq (b : Bool) (e : Ecef K) (g : Geo K) :
    ownSurface g = (held b e g).geo.toList.map fun p => Use.surface p.1 p.2 := by
  cases h : g.valid <;> simp [ownSurface, held, h]

/-- All uses of the surface coordinates are right. -/
theorem ownSurface_right {args : List Arg} {bridge : Bridge K} {geoIp : Option (K × K)}
    {v : Vars K} (hv : Vars.mine v = finalPosition ops args bridge geoIp) :
    (∀ use ∈ ownSurface v.myGeo, (bestPosition ops args bridge geoIp).has use) ↔
      ¬ SurfaceDisplaced ops args bridge geoIp := by
  rw [← surface_right_iff, ← hv, ownSurface_eq v.haveMyEcef v.myEcef]
  constructor
  · intro h p hp
    exact h (.surface p.1 p.2) (List.mem_map.mpr ⟨p, Option.mem_toList.mpr hp, rfl⟩)
  · intro h use huse
    obtain ⟨p, hp, rfl⟩ := List.mem_map.mp huse
    exact h p (Option.mem_toList.mp hp)

theorem held_ecef_ne_none (b : Bool) (e : Ecef K) (g : Geo K) :
    (held b e g).ecef ≠ none ↔ b = true := by
  cases b <;> simp [held]

theorem held_geo_ne_none (b : Bool) (e : Ecef K) (g : Geo K) :
    (held b e g).geo ≠ none ↔ g.valid = true := by
  cases h : g.valid <;> simp [held, h]

theorem finalPosition_ecef_ne_none (args : List Arg) (bridge : Bridge K)
    (geoIp : Option (K × K)) : (finalPosition ops args bridge geoIp).ecef ≠ none ↔
      (heldEcef ops args ≠ none ∨ (lowerPosition ops args bridge geoIp).ecef ≠ none) := by
  cases hh : heldEcef ops args with
  | none => simp [finalPosition_dropped hh]
  | some e => simp [finalPosition_held hh]

/-- `bping` takes the chord exactly when it knows both vectors. -/
theorem takesChord_iff [Zero K] {args : List Arg} {bridge : Bridge K} {geoIp : Option (K × K)}
    {v : Vars K} (hl : Loaded ops args v)
    (hm : Vars.mine (locate ops v bridge geoIp) = finalPosition ops args bridge geoIp)
    (answer : Option (K × K)) :
    ((locateTarget ops (locate ops v bridge geoIp) answer).haveMyEcef = true ∧
      (locateTarget ops (locate ops v bridge geoIp) answer).haveTgtEcef = true) ↔
    TakesChord ops args bridge geoIp := by
  set w := locateTarget ops (locate ops v bridge geoIp) answer with hw
  have hmine : Vars.mine w = finalPosition ops args bridge geoIp :=
    (mine_locateTarget _ _).trans hm
  have htgt : (Vars.target w).ecef = readLast (readEcef ops) (args.filterMap Arg.targetEcef?) := by
    rw [hw, target_locateTarget, (target_locate v bridge geoIp).1, hl.target]
    cases readLast (readEcef ops) (args.filterMap Arg.targetEcef?) with
    | some e => rfl
    | none => cases lastRead (bsParseLatlon ops) (args.filterMap Arg.targetCoord?) <;> rfl
  rw [← held_ecef_ne_none w.haveMyEcef w.myEcef w.myGeo,
    ← held_ecef_ne_none w.haveTgtEcef w.tgtEcef w.tgtGeo]
  change (Vars.mine w).ecef ≠ none ∧ (Vars.target w).ecef ≠ none ↔ _
  rw [hmine, htgt, finalPosition_ecef_ne_none, and_comm]
  rfl

/-- The target of `bping` is on the surface for some answer of the network. -/
theorem targetOnSurface_iff [Zero K] {args : List Arg} {v : Vars K} (hl : Loaded ops args v)
    (bridge : Bridge K) (geoIp : Option (K × K)) :
    (∃ answer, (locateTarget ops (locate ops v bridge geoIp) answer).tgtGeo.valid = true) ↔
      TargetOnSurface ops args := by
  have hgeo : ∀ answer, (locateTarget ops (locate ops v bridge geoIp) answer).tgtGeo.valid = true ↔
      (((⟨readLast (readEcef ops) (args.filterMap Arg.targetEcef?),
        lastRead (bsParseLatlon ops) (args.filterMap Arg.targetCoord?)⟩ : Position K).or
          ⟨none, answer⟩).complete ops).geo ≠ none := by
    intro answer
    rw [← hl.target, ← (target_locate v bridge geoIp).1, ← target_locateTarget]
    exact (held_geo_ne_none _ _ _).symm
  simp only [hgeo]
  unfold TargetOnSurface
  cases lastRead (bsParseLatlon ops) (args.filterMap Arg.targetCoord?) with
  | some c =>
      cases readLast (readEcef ops) (args.filterMap Arg.targetEcef?) <;>
        simp [Position.or, Position.empty, Position.complete]
  | none =>
      cases readLast (readEcef ops) (args.filterMap Arg.targetEcef?) with
      | some e => simp [Position.or, Position.empty, Position.complete, surfacePoint]
      | none =>
          simp only [Position.or, Position.empty, Position.complete, Option.isNone_none,
            Bool.and_self, if_true, Option.bind_none, Option.or_none]
          constructor
          · exact fun _ => Or.inr (fun e he => by cases he)
          · exact fun _ => ⟨some (0, 0), by simp⟩

section
variable [Zero K] {args : List Arg} {v : Vars K} (hl : Loaded ops args v) (bridge : Bridge K)
  (geoIp : Option (K × K))
  (hm : Vars.mine (locate ops v bridge geoIp) = finalPosition ops args bridge geoIp)
include hl hm

/-- The chord of `bping` starts at the vector of the first source. -/
theorem bping_chord_right (hc : TakesChord ops args bridge geoIp) :
    (∀ net, ∀ use ∈ uses ops .bping (locate ops v bridge geoIp) net,
      (bestPosition ops args bridge geoIp).has use) ↔ ¬ VectorDisplaced ops args bridge geoIp := by
  have huse : ∀ net : Network K, uses ops .bping (locate ops v bridge geoIp) net =
      if ¬ net.answered then [] else
        [.chord (locateTarget ops (locate ops v bridge geoIp) net.target).myEcef] := by
    intro net
    simp only [uses, if_pos ((takesChord_iff hl hm net.target).mpr hc)]
  have hvec : ∀ answer, (finalPosition ops args bridge geoIp).ecef =
      some (locateTarget ops (locate ops v bridge geoIp) answer).myEcef := by
    intro answer
    rw [← hm, ← @mine_locateTarget K ops _ _ answer]
    exact if_pos ((takesChord_iff hl hm answer).mpr hc).1
  rw [← vector_right_iff]
  constructor
  · intro h b hb
    rw [hvec none] at hb
    have hright := h ⟨none, true⟩ _ (by rw [huse]; exact List.mem_singleton_self _)
    rw [← hb]
    exact hright
  · intro h net use hmem
    rw [huse] at hmem
    split_ifs at hmem
    · rw [List.mem_singleton.mp hmem]
      exact h _ (hvec _)
    · cases hmem

/-- The great circle of `bping` starts at the point of the first source. -/
theorem bping_surface_right (hc : ¬ TakesChord ops args bridge geoIp) :
    (∀ net, ∀ use ∈ uses ops .bping (locate ops v bridge geoIp) net,
      (bestPosition ops args bridge geoIp).has use) ↔
      ¬ (TargetOnSurface ops args ∧ SurfaceDisplaced ops args bridge geoIp) := by
  have hown := fun answer => ownSurface_right ((@mine_locateTarget K ops _ _ answer).trans hm)
  have huse : ∀ net : Network K, uses ops .bping (locate ops v bridge geoIp) net =
      if ¬ net.answered then [] else
        if (locateTarget ops (locate ops v bridge geoIp) net.target).tgtGeo.valid then
          ownSurface (locateTarget ops (locate ops v bridge geoIp) net.target).myGeo else [] := by
    intro net
    simp only [uses, if_neg ((takesChord_iff hl hm net.target).not.mpr hc)]
  rw [← targetOnSurface_iff hl bridge geoIp]
  constructor
  · intro h hx
    rcases hx with ⟨⟨answer, hvalid⟩, hs⟩
    refine (hown answer).mp (fun use hmem => ?_) hs
    refine h ⟨answer, true⟩ use ?_
    rw [huse]
    simpa [hvalid] using hmem
  · intro h net use hmem
    rw [huse] at hmem
    split_ifs at hmem with h₁ h₂
    · exact (hown net.target).mpr (fun hs => h ⟨⟨net.target, h₂⟩, hs⟩) use hmem
    · cases hmem
    · cases hmem

end

/-- Which programs use a displaced position. -/
theorem uses_right [Zero K] (program : Program) {args : List Arg} {v : Vars K}
    (hl : Loaded ops args v) (bridge : Bridge K) (geoIp : Option (K × K)) :
    (∀ net, ∀ use ∈ uses ops program (locate ops v bridge geoIp) net,
      (bestPosition ops args bridge geoIp).has use) ↔ ¬ Displaced ops program args bridge geoIp := by
  have hm : Vars.mine (locate ops v bridge geoIp) = finalPosition ops args bridge geoIp := by
    rw [mine_locate, hl.mine]
    rfl
  have hown := ownSurface_right hm
  cases program with
  | bping =>
      by_cases hc : TakesChord ops args bridge geoIp
      · rw [bping_chord_right hl bridge geoIp hm hc]
        simp [Displaced, hc]
      · rw [bping_surface_right hl bridge geoIp hm hc]
        simp [Displaced, hc]
  | btraceroute => exact ⟨fun h => hown.mp (h ⟨none, true⟩), fun h _ => hown.mpr h⟩
  | bmtr =>
      refine ⟨fun h => hown.mp (h ⟨none, true⟩), fun h net use hmem => ?_⟩
      simp only [uses] at hmem
      split_ifs at hmem
      · exact hown.mpr h use hmem
      · cases hmem
  | baudit =>
      have hn : (locate ops v bridge geoIp).nanchors < maxAnchors ↔
          anchorCount args < maxAnchors := by
        rw [(target_locate v bridge geoIp).2, hl.anchors]
        omega
      constructor
      · intro h hx
        rcases hx with ⟨hlt, hs⟩
        refine hown.mp (fun use hmem => h ⟨none, true⟩ use ?_) hs
        simpa [uses, hn.mpr hlt] using hmem
      · intro h net use hmem
        simp only [uses] at hmem
        split_ifs at hmem with hc
        · exact hown.mpr (fun hs => h ⟨hn.mp hc.2, hs⟩) use hmem
        · cases hmem

/-- The position of the first source is used throughout, except where a lower
source displaces it. -/
theorem positions_right_iff [Zero K] (program : Program) (words : List (List Char))
    (bridge : Bridge K) (geoIp : Option (K × K)) :
    PositionsRight ops program words bridge geoIp ↔
      ∀ args, commandLine program words = some args → Accepted args →
        ¬ Displaced ops program args bridge geoIp := by
  unfold PositionsRight positions
  refine forall_congr' fun args => forall_congr' fun hcl => ?_
  rw [hcl, Option.bind_some]
  cases hp : parseArgs ops args with
  | none =>
      constructor
      · intro _ hacc
        obtain ⟨v, hv⟩ := @parseArgs_of_accepted K ops _ args hacc
        rw [hp] at hv
        cases hv
      · intro _ net use hmem
        cases hmem
  | some v =>
      obtain ⟨hl, hacc⟩ := parseArgs_loaded hp
      rw [forall_prop_of_true hacc]
      exact uses_right program hl bridge geoIp

end

/-- Whole numbers, and the angles of vectors along an axis. -/
def axisOps : FloatOps ℤ where
  value text := (text.foldl (fun n c => 10 * n + (c.toNat - 48)) 0 : ℕ)
  isOrigin e := e = ⟨0, 0, 0⟩
  latitude e := if e.x = 0 ∧ e.y = 0 then 90 * e.z.sign else 0
  longitude e := if e.y = 0 then if e.x < 0 then 180 else 0 else 90 * e.y.sign

/-- The vector on the equator at longitude zero, and another point. -/
def bothFlags : List (List Char) :=
  ["--my-ecef=1,0,0".toList, "--my-coord=10,20".toList, "host".toList]

theorem coord_displaces_ecef : ¬ PositionsRight axisOps .btraceroute bothFlags .absent none := by
  intro h
  have hargs : commandLine .btraceroute bothFlags =
      some [.myEcef "1,0,0".toList, .myCoord "10,20".toList, .dest] := by decide +kernel
  have huse : Use.surface 10 20 ∈ positions axisOps .btraceroute bothFlags .absent none
      ⟨none, true⟩ := by
    decide +kernel
  have hbest : (bestPosition axisOps [.myEcef "1,0,0".toList, .myCoord "10,20".toList, .dest]
      .absent none).geo = some (0, 0) := by
    decide +kernel
  have hright := h _ hargs ⟨none, true⟩ _ huse
  have heq : (some (0, 0) : Option (ℤ × ℤ)) = some (10, 20) := hbest.symm.trans hright
  exact absurd heq (by decide)

end Iputils.SourcePriority
