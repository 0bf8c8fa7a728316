import Mathlib.Algebra.Notation.Defs
import Iputils.ScanText

/-!
# Where the tools take their own position from

`bping`, `btraceroute`, `bmtr` and `baudit` know their position in two forms, an
ECEF vector and a latitude with a longitude, each with a flag of its own. Four
sources fill them: two command-line flags, the BrightNexus bridge and geoIP. The
command line is modelled from the words of `argv` on; the answers of the bridge
and of the geoIP service are inputs. Coordinates are of an arbitrary type, with
the floating-point operations that the code applies to them as a parameter.
-/
set_option autoImplicit false

namespace Iputils.CoordinateSource
open ScanText

structure Ecef (K : Type) where
  x : K
  y : K
  z : K
deriving Repr, DecidableEq

/-- `bs_geo_t` without the names of city and country. -/
structure Geo (K : Type) where
  lat : K
  lon : K
  valid : Bool
  tag : List Char
deriving Repr, DecidableEq

/-- What the code does with `double`: reading a number, the test for a vector of
length zero, and the two angles of a vector. -/
structure FloatOps (K : Type) where
  value : List Char → K
  isOrigin : Ecef K → Bool
  latitude : Ecef K → K
  longitude : Ecef K → K

inductive Program
  | bping
  | btraceroute
  | bmtr
  | baudit
deriving Repr, DecidableEq

def maxAnchors : ℕ := 32

/-- How the argument loop of `main` takes one word. -/
inductive Arg
  | myEcef (text : List Char)
  | myCoord (text : List Char)
  | targetEcef (text : List Char)
  | targetCoord (text : List Char)
  | anchor (text : List Char)
  | takesValue
  | help
  | dest
  | ignored
deriving Repr, DecidableEq

/-- The options whose value is the next word. -/
def Program.valueFlags : Program → List (List Char)
  | .bping => []
  | .btraceroute => ["-m".toList, "-q".toList]
  | .bmtr => ["-c".toList, "-i".toList, "-m".toList]
  | .baudit => ["-c".toList]

/-- The text behind a prefix. -/
def behind (flag : String) (word : List Char) : Option (List Char) :=
  if flag.toList.isPrefixOf word then some (word.drop flag.length) else none

/-- The chain of tests of the loop; `last` says that no word follows. -/
def classify (program : Program) (word : List Char) (last : Bool) : Arg :=
  match behind "--my-ecef=" word with
  | some text => .myEcef text
  | none =>
  match behind "--my-coord=" word with
  | some text => .myCoord text
  | none =>
  match if program = .bping then behind "--target-ecef=" word else none with
  | some text => .targetEcef text
  | none =>
  match if program = .bping then behind "--target-coord=" word else none with
  | some text => .targetCoord text
  | none =>
  match if program = .baudit then behind "--anchor=" word else none with
  | some text => .anchor text
  | none =>
      if word ∈ program.valueFlags ∧ ¬ last then .takesValue
      else if word = "-h".toList ∨ word = "--help".toList then .help
      else if word.head? ≠ some '-' then .dest
      else .ignored

/-- The words as the loop takes them; `skip` marks the value of an option. -/
def arguments (program : Program) : Bool → List (List Char) → List Arg
  | _, [] => []
  | true, _ :: words => arguments program false words
  | false, word :: words =>
      let arg := classify program word words.isEmpty
      arg :: arguments program (arg = .takesValue) words

def colorValues : List (List Char) :=
  ["auto", "always", "on", "yes", "never", "off", "no", "ansi", "16", "truecolor", "24bit",
    "rgb"].map String.toList

def colorSchemes : List (List Char) := ["default", "bright"].map String.toList

/-- Whether a word is a colour option, and if so whether its value is known. -/
def colorOption (word : List Char) : Option Bool :=
  if word = "--no-color".toList ∨ word = "--color".toList then some true
  else
    match behind "--color=" word with
    | some value => some (value.map Char.toLower ∈ colorValues)
    | none =>
        (behind "--color-scheme=" word).map fun value => value.map Char.toLower ∈ colorSchemes

/-- `ipu_color_init` on the words behind the name of the program: `none` for an exit. -/
def ipuColorInit (words : List (List Char)) : Option (List (List Char)) :=
  if words.any fun word => colorOption word = some false then none
  else some (words.filter fun word => colorOption word = none)

/-- The words as the loop takes them, unless `--reset-brightlink-pin` or a wrong
colour ends the program before. -/
def commandLine (program : Program) (words : List (List Char)) : Option (List Arg) :=
  if "--reset-brightlink-pin".toList ∈ words then none
  else (ipuColorInit words).map (arguments program false)

section
variable {K : Type}

structure Vars (K : Type) where
  myEcef : Ecef K
  haveMyEcef : Bool := false
  myGeo : Geo K
  tgtEcef : Ecef K
  haveTgtEcef : Bool := false
  tgtGeo : Geo K
  nanchors : ℕ := 0
  dest : Bool := false
deriving Repr, DecidableEq

def Vars.init [Zero K] : Vars K where
  myEcef := ⟨0, 0, 0⟩
  myGeo := ⟨0, 0, false, []⟩
  tgtEcef := ⟨0, 0, 0⟩
  tgtGeo := ⟨0, 0, false, []⟩

/-- The numbers that `sscanf` reads for `%lf,%lf,...` with `n` conversions. -/
def scanNumbers : ℕ → List Char → List (List Char)
  | 0, _ => []
  | n + 1, s =>
      match floatItem (s.dropWhile isSpace) with
      | none => []
      | some item =>
          item.1 :: if item.2.head? = some ',' then scanNumbers n item.2.tail else []

variable (ops : FloatOps K)

/-- A failed call has stored the numbers before the one that failed. -/
def bsParseEcef (s : List Char) (e : Ecef K) : Ecef K × Bool :=
  match scanNumbers 3 s with
  | [x, y, z] => (⟨ops.value x, ops.value y, ops.value z⟩, true)
  | [x, y] => (⟨ops.value x, ops.value y, e.z⟩, false)
  | [x] => (⟨ops.value x, e.y, e.z⟩, false)
  | _ => (e, false)

def bsParseLatlon (s : List Char) : Option (K × K) :=
  match scanNumbers 2 s with
  | [lat, lon] => some (ops.value lat, ops.value lon)
  | _ => none

def parseAnchor (s : List Char) : Bool := (scanNumbers 3 s).length = 3

def bsEcefToGeo (e : Ecef K) (g : Geo K) (tag : List Char) : Geo K :=
  if ops.isOrigin e then g else ⟨ops.latitude e, ops.longitude e, true, tag⟩

/-- A coordinate flag stores nothing unless it can be read. -/
def coordGeo (text : List Char) (g : Geo K) : Geo K :=
  match bsParseLatlon ops text with
  | some p => ⟨p.1, p.2, true, "[coord]".toList⟩
  | none => g

/-- One round of the argument loop; `none` when `usage` ends the program. -/
def Vars.apply (v : Vars K) : Arg → Option (Vars K)
  | .myEcef text =>
      let res := bsParseEcef ops text v.myEcef
      some { v with myEcef := res.1, haveMyEcef := res.2 }
  | .myCoord text => some { v with myGeo := coordGeo ops text v.myGeo }
  | .targetEcef text =>
      let res := bsParseEcef ops text v.tgtEcef
      some { v with tgtEcef := res.1, haveTgtEcef := res.2 }
  | .targetCoord text => some { v with tgtGeo := coordGeo ops text v.tgtGeo }
  | .anchor text =>
      some { v with
        nanchors := if v.nanchors < maxAnchors ∧ parseAnchor text then v.nanchors + 1
          else v.nanchors }
  | .help => none
  | .dest => some { v with dest := true }
  | .takesValue | .ignored => some v

def argLoop : List Arg → Vars K → Option (Vars K)
  | [], v => some v
  | arg :: args, v => (v.apply ops arg).bind (argLoop args)

def parseArgs [Zero K] (args : List Arg) : Option (Vars K) :=
  (argLoop ops args Vars.init).bind fun v => if v.dest then some v else none

/-- The errors of `bl_geo_get`. -/
inductive Status
  | pinMismatch
  | crypto
  | protocol
  | bridgeRefused
  | denied
  | timeout
  | transport
  | other
deriving Repr, DecidableEq

def Status.slug : Status → List Char
  | .pinMismatch => "pin-mismatch".toList
  | .crypto => "crypto".toList
  | .protocol => "proto".toList
  | .bridgeRefused => "refused".toList
  | .denied => "denied".toList
  | .timeout => "timeout".toList
  | .transport | .other => []

/-- The blocks of a successful answer of the bridge. -/
structure Fix (K : Type) where
  wgs84 : Option (K × K)
  brightspace : Option (Ecef K)
deriving Repr, DecidableEq

/-- `absent` when the call is not reached: no home, no pin store, no client. -/
inductive Bridge (K : Type)
  | absent
  | failed (status : Status)
  | ok (fix : Fix K)

/-- The position from the bridge, and the reason buffer. -/
def blGlueGetGeo (v : Vars K) : Bridge K → Vars K × List Char
  | .absent => (v, [])
  | .failed status => if v.haveMyEcef ∨ v.myGeo.valid then (v, []) else (v, status.slug)
  | .ok fix =>
      if v.haveMyEcef ∨ v.myGeo.valid then (v, [])
      else
        let v :=
          match fix.wgs84 with
          | some p => { v with myGeo := ⟨p.1, p.2, true, "[brightlink]".toList⟩ }
          | none => v
        match fix.brightspace with
        | some e =>
            ({ v with
                myEcef := e
                haveMyEcef := true
                myGeo := { v.myGeo with tag := "[brightlink:ecef]".toList } }, [])
        | none => (v, [])

def bsGeolocate [Zero K] (answer : Option (K × K)) : Geo K :=
  match answer with
  | some p => ⟨p.1, p.2, true, "[~geoIP]".toList⟩
  | none => ⟨0, 0, false, "[~geoIP]".toList⟩

def blGlueAnnotateTag (reason : List Char) (g : Geo K) : Geo K :=
  if reason = [] then g
  else if ¬ "[~geoIP".toList.isPrefixOf g.tag then g
  else if '/' ∈ g.tag then g
  else { g with tag := ("[~geoIP/".toList ++ reason ++ "]".toList).take 23 }

/-- The fall-through code of the four programs. -/
def locate [Zero K] (v : Vars K) (bridge : Bridge K) (geoIp : Option (K × K)) : Vars K :=
  let res := blGlueGetGeo v bridge
  let v := res.1
  let v := if ¬ v.haveMyEcef ∧ ¬ v.myGeo.valid then { v with myGeo := bsGeolocate geoIp } else v
  let v :=
    if v.haveMyEcef ∧ ¬ v.myGeo.valid then
      { v with myGeo := bsEcefToGeo ops v.myEcef v.myGeo "[ecef]".toList }
    else v
  { v with myGeo := blGlueAnnotateTag res.2 v.myGeo }

/-- The target of `bping`, with the answer of geoIP for its address. -/
def locateTarget [Zero K] (v : Vars K) (answer : Option (K × K)) : Vars K :=
  let v := if ¬ v.haveTgtEcef ∧ ¬ v.tgtGeo.valid then { v with tgtGeo := bsGeolocate answer } else v
  if v.haveTgtEcef ∧ ¬ v.tgtGeo.valid then
    { v with tgtGeo := bsEcefToGeo ops v.tgtEcef v.tgtGeo "[ecef]".toList }
  else v

/-- A position that a distance starts from, or that is printed as our own. -/
inductive Use (K : Type)
  | chord (e : Ecef K)
  | surface (lat lon : K)
deriving Repr, DecidableEq

/-- What the programs learn from the network: where the target is, and whether
there was an answer to the pings of `bping` and `baudit` and to the traceroute of
`bmtr`. -/
structure Network (K : Type) where
  target : Option (K × K)
  answered : Bool

def ownSurface (g : Geo K) : List (Use K) := if g.valid then [.surface g.lat g.lon] else []

/-- The start of the chord or of the great circle in `bping`, the source and path
start of `btraceroute`, the source of `bmtr`, and the self anchor of `baudit`. -/
def uses [Zero K] (program : Program) (v : Vars K) (net : Network K) : List (Use K) :=
  match program with
  | .bping =>
      let v := locateTarget ops v net.target
      if ¬ net.answered then []
      else if v.haveMyEcef ∧ v.haveTgtEcef then [.chord v.myEcef]
      else if v.tgtGeo.valid then ownSurface v.myGeo
      else []
  | .btraceroute => ownSurface v.myGeo
  | .bmtr => if net.answered then ownSurface v.myGeo else []
  | .baudit => if net.answered ∧ v.nanchors < maxAnchors then ownSurface v.myGeo else []

/-- The positions that a whole run uses; none when it ends in its arguments. -/
def positions [Zero K] (program : Program) (words : List (List Char)) (bridge : Bridge K)
    (geoIp : Option (K × K)) (net : Network K) : List (Use K) :=
  match (commandLine program words).bind (parseArgs ops) with
  | none => []
  | some v => uses ops program (locate ops v bridge geoIp) net

end

end Iputils.CoordinateSource
