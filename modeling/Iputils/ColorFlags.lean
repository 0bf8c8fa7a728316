import Mathlib.Data.List.Basic
import Mathlib.Data.List.Infix
import Mathlib.Tactic.SplitIfs

/-!
# The colour flags

`ipu_color_init` takes the flags of the colour module out of `argv`, where the tools parse
what is left. It deletes them in place while it scans. The last flag of each kind decides,
then the environment, then the default.
-/
set_option autoImplicit false

namespace Iputils.ColorFlags

section Code

/-- `ipu_color_when_t` -/
inductive When
  | auto | always | never | ansi | truecolor
deriving Repr, DecidableEq

/-- `ipu_color_scheme_t` -/
inductive Scheme
  | default | bright
deriving Repr, DecidableEq

def strcaseeq : List Char → List Char → Bool
  | a :: as, b :: bs => if a.toLower ≠ b.toLower then false else strcaseeq as bs
  | [], [] => true
  | _, _ => false

/-- `ipu_color_parse_when`; no caller passes a null pointer. -/
def ipuColorParseWhen (value : List Char) : Option When :=
  if value = [] then none
  else if strcaseeq value "auto".toList then some .auto
  else if strcaseeq value "always".toList || strcaseeq value "on".toList ||
      strcaseeq value "yes".toList then some .always
  else if strcaseeq value "never".toList || strcaseeq value "off".toList ||
      strcaseeq value "no".toList then some .never
  else if strcaseeq value "ansi".toList || strcaseeq value "16".toList then some .ansi
  else if strcaseeq value "truecolor".toList || strcaseeq value "24bit".toList ||
      strcaseeq value "rgb".toList then some .truecolor
  else none

/-- `ipu_color_parse_scheme` -/
def ipuColorParseScheme (value : List Char) : Option Scheme :=
  if value = [] then none
  else if strcaseeq value "default".toList then some .default
  else if strcaseeq value "bright".toList then some .bright
  else none

/-- How the function ends if it does not return. -/
inductive Stop
  | exit (status : ℕ) (stderr : List Char)
  | fault
deriving Repr, DecidableEq

def colorUsage (prog : List Char) : List Char :=
  prog ++ ": invalid color setting (expected auto, always, never, ansi, or truecolor)\n".toList

def parseColorArg (stderr prog arg : List Char) : Except Stop When :=
  let value :=
    if "--color=".toList.isPrefixOf arg then arg.drop 8
    else if arg = "--color".toList then "always".toList
    else arg
  match ipuColorParseWhen value with
  | some w => .ok w
  | none => .error (.exit 2 (stderr ++ colorUsage prog))

def parseSchemeArg (stderr prog arg : List Char) : Except Stop Scheme :=
  let value := if "--color-scheme=".toList.isPrefixOf arg then arg.drop 15 else arg
  match ipuColorParseScheme value with
  | some s => .ok s
  | none =>
      .error (.exit 2 (stderr ++ prog ++
        ": invalid color scheme (expected default or bright)\n".toList))

/-- An element of `argv`: a string or a null pointer. -/
abbrev Slot := Option (List Char)

def slotAt (argv : List Slot) (i : ℕ) : Except Stop Slot :=
  match argv[i]? with
  | some slot => .ok slot
  | none => .error .fault

def assign (argv : List Slot) (i : ℕ) (slot : Slot) : Except Stop (List Slot) :=
  if i < argv.length then .ok (argv.set i slot) else .error .fault

/-- The string that `strcmp` is given. -/
def argAt (argv : List Slot) (i : ℕ) : Except Stop (List Char) := do
  match ← slotAt argv i with
  | some arg => .ok arg
  | none => .error .fault

/-- The loop of `compact_argv`. -/
def shiftDown (argc i : ℕ) (argv : List Slot) : Except Stop (List Slot) :=
  if i + 1 < argc then do
    let next ← slotAt argv (i + 1)
    let argv ← assign argv i next
    shiftDown argc (i + 1) argv
  else .ok argv
termination_by argc - i

/-- `compact_argv`; the caller counts `argc` down. -/
def compactArgv (argc : ℕ) (argv : List Slot) (removeAt : ℕ) : Except Stop (List Slot) := do
  let argv ← shiftDown argc removeAt argv
  assign argv (argc - 1) none

/-- What is there when `ipu_colors_resolve` is called: the arguments of the tool, and the
mode and the scheme that are passed. -/
structure Done where
  argc : ℕ
  argv : List Slot
  mode : When
  scheme : Scheme
  stderr : List Char
deriving Repr, DecidableEq

/-- The scanning loop. -/
def scan (stderr prog : List Char) (argc i : ℕ) (argv : List Slot) (mode : When)
    (scheme : Scheme) : Except Stop Done :=
  if i < argc then do
    let arg ← argAt argv i
    if arg = "--no-color".toList then
      let argv ← compactArgv argc argv i
      scan stderr prog (argc - 1) i argv .never scheme
    else if "--color=".toList.isPrefixOf arg || arg = "--color".toList then
      let mode ← parseColorArg stderr prog arg
      let argv ← compactArgv argc argv i
      scan stderr prog (argc - 1) i argv mode scheme
    else if "--color-scheme=".toList.isPrefixOf arg then
      let scheme ← parseSchemeArg stderr prog arg
      let argv ← compactArgv argc argv i
      scan stderr prog (argc - 1) i argv mode scheme
    else scan stderr prog argc (i + 1) argv mode scheme
  else .ok ⟨argc, argv, mode, scheme, stderr⟩
termination_by argc - i

/-- `IPUTILS_COLOR` and `IPUTILS_COLOR_SCHEME`. -/
structure Environment where
  color : Option (List Char) := none
  scheme : Option (List Char) := none

/-- A variable that is set and not empty. -/
def nonEmpty (value : Option (List Char)) : Option (List Char) := value.filter (· ≠ [])

/-- The mode that the environment asks for; a bad one is only reported. -/
def envColor (env : Environment) (prog : List Char) : When × List Char :=
  match nonEmpty env.color with
  | none => (.auto, [])
  | some value =>
      match ipuColorParseWhen value with
      | some w => (w, [])
      | none => (.auto, colorUsage prog)

def envScheme (env : Environment) (stderr prog : List Char) : Except Stop Scheme :=
  match nonEmpty env.scheme with
  | none => .ok .default
  | some value =>
      match ipuColorParseScheme value with
      | some s => .ok s
      | none =>
          .error (.exit 2 (stderr ++ prog ++
            ": invalid IPUTILS_COLOR_SCHEME (expected default or bright)\n".toList))

/-- `ipu_color_init` up to the call of `ipu_colors_resolve`. -/
def ipuColorInit (env : Environment) (argc : ℕ) (argv : List Slot) : Except Stop Done := do
  let prog := (argv.head?.join).getD "iputils".toList
  let (mode, stderr) := envColor env prog
  let scheme ← envScheme env stderr prog
  scan stderr prog argc 1 argv mode scheme

end Code

/-! ## The meaning of the flags -/

section Meaning
variable {α β : Type}

/-- The names of a mode. -/
def whenNames : When → List (List Char)
  | .auto => ["auto".toList]
  | .always => ["always".toList, "on".toList, "yes".toList]
  | .never => ["never".toList, "off".toList, "no".toList]
  | .ansi => ["ansi".toList, "16".toList]
  | .truecolor => ["truecolor".toList, "24bit".toList, "rgb".toList]

def schemeNames : Scheme → List (List Char)
  | .default => ["default".toList]
  | .bright => ["bright".toList]

/-- Equal up to the case of letters. -/
def SameLetters (a b : List Char) : Prop := a.map Char.toLower = b.map Char.toLower

instance (a b : List Char) : Decidable (SameLetters a b) := inferInstanceAs (Decidable (_ = _))

def NamesWhen (value : List Char) (w : When) : Prop := ∃ name ∈ whenNames w, SameLetters value name

def NamesScheme (value : List Char) (s : Scheme) : Prop :=
  ∃ name ∈ schemeNames s, SameLetters value name

/-- The arguments that belong to the colour module. -/
def IsFlag (arg : List Char) : Prop :=
  arg = "--no-color".toList ∨ arg = "--color".toList ∨ "--color=".toList <+: arg ∨
    "--color-scheme=".toList <+: arg

instance (arg : List Char) : Decidable (IsFlag arg) := inferInstanceAs (Decidable (_ ∨ _))

inductive SetsMode : List Char → When → Prop
  | noColor : SetsMode "--no-color".toList .never
  | color : SetsMode "--color".toList .always
  | value {v : List Char} {w : When} (h : NamesWhen v w) : SetsMode ("--color=".toList ++ v) w

inductive SetsScheme : List Char → Scheme → Prop
  | value {v : List Char} {s : Scheme} (h : NamesScheme v s) :
      SetsScheme ("--color-scheme=".toList ++ v) s

/-- A flag whose value is not valid. -/
inductive BadFlag : List Char → Prop
  | mode {v : List Char} (h : ∀ w, ¬ NamesWhen v w) : BadFlag ("--color=".toList ++ v)
  | scheme {v : List Char} (h : ∀ s, ¬ NamesScheme v s) : BadFlag ("--color-scheme=".toList ++ v)

/-- The settings that end the program. -/
def BadSettings (env : Environment) (args : List (List Char)) : Prop :=
  (∃ v ∈ env.scheme, v ≠ [] ∧ ∀ s, ¬ NamesScheme v s) ∨ ∃ arg ∈ args, BadFlag arg

/-- `y` is what the last of the elements that set something sets, or the value before. -/
def LastSets (R : α → β → Prop) (before : β) (xs : List α) (y : β) : Prop :=
  (∃ front x rest, xs = front ++ x :: rest ∧ R x y ∧ ∀ x' ∈ rest, ∀ y', ¬ R x' y') ∨
    (∀ x ∈ xs, ∀ y', ¬ R x y') ∧ y = before

variable {R : α → β → Prop} {before y z : β} {x : α} {xs : List α}

theorem LastSets.nil : LastSets R before [] before :=
  Or.inr ⟨List.forall_mem_nil _, rfl⟩

theorem LastSets.sets (hx : R x y) (h : LastSets R y xs z) : LastSets R before (x :: xs) z := by
  left
  rcases h with ⟨front, x', rest, rfl, hx', hrest⟩ | ⟨hnone, rfl⟩
  · exact ⟨x :: front, x', rest, rfl, hx', hrest⟩
  · exact ⟨[], x, xs, rfl, hx, hnone⟩

theorem LastSets.skip (hx : ∀ y', ¬ R x y') (h : LastSets R before xs z) :
    LastSets R before (x :: xs) z := by
  rcases h with ⟨front, x', rest, rfl, hx', hrest⟩ | ⟨hnone, rfl⟩
  · exact Or.inl ⟨x :: front, x', rest, rfl, hx', hrest⟩
  · exact Or.inr ⟨List.forall_mem_cons.mpr ⟨hx, hnone⟩, rfl⟩

end Meaning

section Values
variable {value : List Char}

theorem strcaseeq_iff (a b : List Char) : strcaseeq a b = true ↔ SameLetters a b := by
  unfold SameLetters
  fun_induction strcaseeq a b with
  | case1 a as b bs h => simp [h]
  | case2 a as b bs h ih => simp [ih, not_not.mp h]
  | case3 => simp
  | case4 a b hcons hnil =>
      cases a with
      | nil =>
          cases b with
          | nil => exact absurd rfl (hnil rfl)
          | cons d b => simp
      | cons c a =>
          cases b with
          | nil => simp
          | cons d b => exact absurd rfl (hcons c a d b rfl)

theorem SameLetters.left_iff {a b : List Char} (h : SameLetters a b) (c : List Char) :
    SameLetters a c ↔ SameLetters b c := by
  unfold SameLetters at *
  rw [h]

theorem parseWhen_iff (w : When) : ipuColorParseWhen value = some w ↔ NamesWhen value w := by
  unfold ipuColorParseWhen NamesWhen
  simp only [Bool.or_eq_true, or_assoc, strcaseeq_iff]
  by_cases hne : value = []
  · rw [if_pos hne, hne]
    cases w <;> decide
  · rw [if_neg hne]
    -- the names of different modes differ, so that the first test that succeeds decides
    split_ifs with hauto halways hnever hansi htrue
    · simp only [hauto.left_iff]
      cases w <;> decide
    · rcases halways with h | h | h <;> simp only [h.left_iff] <;> cases w <;> decide
    · rcases hnever with h | h | h <;> simp only [h.left_iff] <;> cases w <;> decide
    · rcases hansi with h | h <;> simp only [h.left_iff] <;> cases w <;> decide
    · rcases htrue with h | h | h <;> simp only [h.left_iff] <;> cases w <;> decide
    · refine iff_of_false (fun h => by cases h) ?_
      cases w <;> simp only [whenNames, List.mem_cons, List.not_mem_nil, or_false, exists_eq_or_imp,
        exists_eq_left]
      · exact hauto
      · exact halways
      · exact hnever
      · exact hansi
      · exact htrue

theorem parseScheme_iff (s : Scheme) :
    ipuColorParseScheme value = some s ↔ NamesScheme value s := by
  unfold ipuColorParseScheme NamesScheme
  simp only [strcaseeq_iff]
  by_cases hne : value = []
  · rw [if_pos hne, hne]
    cases s <;> decide
  · rw [if_neg hne]
    split_ifs with hdefault hbright
    · simp only [hdefault.left_iff]
      cases s <;> decide
    · simp only [hbright.left_iff]
      cases s <;> decide
    · refine iff_of_false (fun h => by cases h) ?_
      cases s <;> simp only [schemeNames, List.mem_singleton, exists_eq_left]
      · exact hdefault
      · exact hbright

/-- A value is not valid if it names nothing. -/
theorem parseWhen_none : ipuColorParseWhen value = none ↔ ∀ w, ¬ NamesWhen value w := by
  simp only [Option.eq_none_iff_forall_ne_some, ne_eq, parseWhen_iff]

theorem parseScheme_none : ipuColorParseScheme value = none ↔ ∀ s, ¬ NamesScheme value s := by
  simp only [Option.eq_none_iff_forall_ne_some, ne_eq, parseScheme_iff]

end Values

section Flags
variable {arg v : List Char}

/-- What an argument does. -/
inductive Effect
  | other
  | mode (w : When)
  | scheme (s : Scheme)
  | bad
deriving Repr, DecidableEq

def effect (arg : List Char) : Effect :=
  if arg = "--no-color".toList then .mode .never
  else if arg = "--color".toList then .mode .always
  else if "--color=".toList <+: arg then ((ipuColorParseWhen (arg.drop 8)).map .mode).getD .bad
  else if "--color-scheme=".toList <+: arg then
    ((ipuColorParseScheme (arg.drop 15)).map .scheme).getD .bad
  else .other

theorem effect_color_value :
    effect ("--color=".toList ++ v) = ((ipuColorParseWhen v).map .mode).getD .bad := by
  have hno : "--color=".toList ++ v ≠ "--no-color".toList := by simp
  have hcolor : "--color=".toList ++ v ≠ "--color".toList := by simp
  rw [effect, if_neg hno, if_neg hcolor, if_pos (List.prefix_append _ _)]
  rfl

theorem effect_scheme_value :
    effect ("--color-scheme=".toList ++ v) = ((ipuColorParseScheme v).map .scheme).getD .bad := by
  have hno : "--color-scheme=".toList ++ v ≠ "--no-color".toList := by simp
  have hcolor : "--color-scheme=".toList ++ v ≠ "--color".toList := by simp
  have hvalue : ¬ "--color=".toList <+: "--color-scheme=".toList ++ v := by simp
  rw [effect, if_neg hno, if_neg hcolor, if_neg hvalue, if_pos (List.prefix_append _ _)]
  rfl

theorem not_isFlag : ¬ IsFlag arg ↔ arg ≠ "--no-color".toList ∧ arg ≠ "--color".toList ∧
    ¬ "--color=".toList <+: arg ∧ ¬ "--color-scheme=".toList <+: arg := by
  simp only [IsFlag, not_or, ne_eq]

theorem effect_other (h : ¬ IsFlag arg) : effect arg = .other := by
  obtain ⟨hno, hcolor, hvalue, hscheme⟩ := not_isFlag.mp h
  rw [effect, if_neg hno, if_neg hcolor, if_neg hvalue, if_neg hscheme]

theorem SetsMode.effect_eq {w : When} (h : SetsMode arg w) : effect arg = .mode w := by
  cases h with
  | noColor => rfl
  | color => rfl
  | value h =>
      rw [effect_color_value, (parseWhen_iff w).mpr h]
      rfl

theorem SetsScheme.effect_eq {s : Scheme} (h : SetsScheme arg s) : effect arg = .scheme s := by
  cases h with
  | value h =>
      rw [effect_scheme_value, (parseScheme_iff s).mpr h]
      rfl

theorem BadFlag.effect_eq (h : BadFlag arg) : effect arg = .bad := by
  cases h with
  | mode h =>
      rw [effect_color_value, parseWhen_none.mpr h]
      rfl
  | scheme h =>
      rw [effect_scheme_value, parseScheme_none.mpr h]
      rfl

theorem not_setsMode (h : ∀ w, effect arg ≠ .mode w) (w : When) : ¬ SetsMode arg w :=
  fun hw => h w hw.effect_eq

theorem not_setsScheme (h : ∀ s, effect arg ≠ .scheme s) (s : Scheme) : ¬ SetsScheme arg s :=
  fun hs => h s hs.effect_eq

theorem exists_bad_cons {rest : List (List Char)} (h : effect arg ≠ .bad) :
    (∃ arg' ∈ arg :: rest, BadFlag arg') ↔ ∃ arg' ∈ rest, BadFlag arg' := by
  rw [List.exists_mem_cons_iff, or_iff_right fun hbad => h (BadFlag.effect_eq hbad)]

/-- Every argument is no flag, or sets one thing, or has a bad value. -/
theorem arg_cases (arg : List Char) :
    ¬ IsFlag arg ∨
      IsFlag arg ∧ ((∃ w, SetsMode arg w) ∨ (∃ s, SetsScheme arg s) ∨ BadFlag arg) := by
  by_cases hflag : IsFlag arg
  · refine Or.inr ⟨hflag, ?_⟩
    rcases hflag with rfl | rfl | ⟨v, rfl⟩ | ⟨v, rfl⟩
    · exact Or.inl ⟨_, .noColor⟩
    · exact Or.inl ⟨_, .color⟩
    · by_cases hv : ∃ w, NamesWhen v w
      · exact Or.inl (hv.imp fun _ h => .value h)
      · exact Or.inr (Or.inr (.mode (not_exists.mp hv)))
    · by_cases hv : ∃ s, NamesScheme v s
      · exact Or.inr (Or.inl (hv.imp fun _ h => .value h))
      · exact Or.inr (Or.inr (.scheme (not_exists.mp hv)))
  · exact Or.inl hflag

end Flags

/-! ## Deleting in place -/

section Deletion
variable {front xs tail : List Slot} {a : Slot}

theorem slotAt_append (front : List Slot) (a : Slot) (rest : List Slot) :
    slotAt (front ++ a :: rest) front.length = .ok a := by
  rw [slotAt, List.getElem?_append_right le_rfl, Nat.sub_self]
  rfl

theorem assign_append (front : List Slot) (a b : Slot) (rest : List Slot) :
    assign (front ++ a :: rest) front.length b = .ok (front ++ b :: rest) := by
  have hlt : front.length < (front ++ a :: rest).length := by
    rw [List.length_append, List.length_cons]
    omega
  rw [assign, if_pos hlt, List.set_append_right _ _ le_rfl, Nat.sub_self]
  rfl

/-- The loop moves what follows the deleted element down; its last element stays twice. -/
theorem shiftDown_ok (front xs tail : List Slot) (a : Slot) :
    ∃ last, shiftDown (front.length + 1 + xs.length) front.length (front ++ a :: (xs ++ tail)) =
      .ok (front ++ (xs ++ last :: tail)) := by
  induction xs generalizing front a with
  | nil =>
      refine ⟨a, ?_⟩
      rw [shiftDown, if_neg (by rw [List.length_nil]; omega)]
      rfl
  | cons x xs ih =>
      obtain ⟨last, hrest⟩ := ih (front ++ [x]) x
      have hnext := slotAt_append (front ++ [a]) x (xs ++ tail)
      have hargc : front.length + 1 + (x :: xs).length = front.length + 1 + 1 + xs.length := by
        rw [List.length_cons]
        omega
      rw [List.length_append, List.length_singleton, List.append_assoc] at hnext hrest
      rw [List.append_assoc] at hrest
      refine ⟨last, ?_⟩
      rw [shiftDown, if_pos (by rw [List.length_cons]; omega), hargc]
      change (slotAt (front ++ ([a] ++ x :: (xs ++ tail))) (front.length + 1) >>= fun next =>
        assign (front ++ a :: x :: (xs ++ tail)) front.length next >>= fun argv =>
          shiftDown (front.length + 1 + 1 + xs.length) (front.length + 1) argv) = _
      rw [hnext]
      change (assign (front ++ a :: x :: (xs ++ tail)) front.length x >>= fun argv =>
        shiftDown (front.length + 1 + 1 + xs.length) (front.length + 1) argv) = _
      rw [assign_append]
      exact hrest

theorem compactArgv_ok (front xs tail : List Slot) (a : Slot) :
    compactArgv (front.length + 1 + xs.length) (front ++ a :: (xs ++ tail)) front.length =
      .ok (front ++ (xs ++ none :: tail)) := by
  obtain ⟨last, hshift⟩ := shiftDown_ok front xs tail a
  have hlast := assign_append (front ++ xs) last none tail
  have hindex : front.length + 1 + xs.length - 1 = (front ++ xs).length := by
    rw [List.length_append]
    omega
  rw [List.append_assoc, List.append_assoc] at hlast
  rw [compactArgv, hshift, hindex]
  exact hlast

end Deletion

section Scanning
variable {stderr prog arg : List Char} {kept rest : List (List Char)} {mode w : When}
  {scheme s : Scheme}

/-- The scan with the kept arguments before `i` and the rest from it on. -/
def scanFrom (stderr prog : List Char) (kept rest : List (List Char)) (junk : List Slot)
    (mode : When) (scheme : Scheme) : Except Stop Done :=
  scan stderr prog (kept.length + rest.length) kept.length
    (kept.map some ++ (rest.map some ++ none :: junk)) mode scheme

theorem scanFrom_nil (junk : List Slot) :
    scanFrom stderr prog kept [] junk mode scheme =
      .ok ⟨kept.length, kept.map some ++ none :: junk, mode, scheme, stderr⟩ := by
  rw [scanFrom, scan, if_neg (by rw [List.length_nil]; omega)]
  rfl

theorem argAt_kept (junk : List Slot) :
    argAt (kept.map some ++ ((arg :: rest).map some ++ none :: junk)) kept.length = .ok arg := by
  have hslot := slotAt_append (kept.map some) (some arg) (rest.map some ++ none :: junk)
  rw [List.length_map] at hslot
  rw [argAt, List.map_cons, List.cons_append, hslot]
  rfl

theorem compactArgv_kept (junk : List Slot) :
    compactArgv (kept.length + (arg :: rest).length)
        (kept.map some ++ ((arg :: rest).map some ++ none :: junk)) kept.length =
      .ok (kept.map some ++ (rest.map some ++ none :: none :: junk)) := by
  have hcompact := compactArgv_ok (kept.map some) (rest.map some) (none :: junk) (some arg)
  rw [List.length_map, List.length_map, Nat.add_assoc, Nat.add_comm 1] at hcompact
  exact hcompact

/-- A round of the scanning loop. A flag is deleted, and `i` stays. -/
theorem scanFrom_arg (arg : List Char) (junk : List Slot) :
    scanFrom stderr prog kept (arg :: rest) junk mode scheme =
      if arg = "--no-color".toList then
        scanFrom stderr prog kept rest (none :: junk) .never scheme
      else if "--color=".toList.isPrefixOf arg || arg = "--color".toList then do
        let mode ← parseColorArg stderr prog arg
        scanFrom stderr prog kept rest (none :: junk) mode scheme
      else if "--color-scheme=".toList.isPrefixOf arg then do
        let scheme ← parseSchemeArg stderr prog arg
        scanFrom stderr prog kept rest (none :: junk) mode scheme
      else scanFrom stderr prog (kept ++ [arg]) rest junk mode scheme := by
  have hnext : scanFrom stderr prog (kept ++ [arg]) rest junk mode scheme =
      scan stderr prog (kept.length + (arg :: rest).length) (kept.length + 1)
        (kept.map some ++ ((arg :: rest).map some ++ none :: junk)) mode scheme := by
    rw [scanFrom, List.length_append, List.length_singleton, List.map_append, List.append_assoc,
      Nat.add_assoc, Nat.add_comm 1]
    rfl
  have hargc : kept.length + (arg :: rest).length - 1 = kept.length + rest.length := by
    rw [List.length_cons]
    omega
  rw [hnext, scanFrom, scan, if_pos (by rw [List.length_cons]; omega), argAt_kept]
  simp only [compactArgv_kept, hargc, bind, Except.bind, scanFrom]

theorem parseColorArg_value {v : List Char} :
    parseColorArg stderr prog ("--color=".toList ++ v) =
      ((ipuColorParseWhen v).map .ok).getD (.error (.exit 2 (stderr ++ colorUsage prog))) := by
  have hstarts : "--color=".toList.isPrefixOf ("--color=".toList ++ v) = true :=
    List.isPrefixOf_iff_prefix.mpr (List.prefix_append _ _)
  rw [parseColorArg, if_pos hstarts]
  change (match ipuColorParseWhen v with
    | some w => Except.ok w
    | none => _) = _
  cases ipuColorParseWhen v <;> rfl

theorem parseSchemeArg_value {v : List Char} :
    parseSchemeArg stderr prog ("--color-scheme=".toList ++ v) =
      ((ipuColorParseScheme v).map .ok).getD (.error (.exit 2 (stderr ++ prog ++
        ": invalid color scheme (expected default or bright)\n".toList))) := by
  have hstarts : "--color-scheme=".toList.isPrefixOf ("--color-scheme=".toList ++ v) = true :=
    List.isPrefixOf_iff_prefix.mpr (List.prefix_append _ _)
  rw [parseSchemeArg, if_pos hstarts]
  change (match ipuColorParseScheme v with
    | some s => Except.ok s
    | none => _) = _
  cases ipuColorParseScheme v <;> rfl

theorem scanFrom_setsMode (h : SetsMode arg w) (junk : List Slot) :
    scanFrom stderr prog kept (arg :: rest) junk mode scheme =
      scanFrom stderr prog kept rest (none :: junk) w scheme := by
  rw [scanFrom_arg]
  cases h with
  | noColor => rw [if_pos rfl]
  | color =>
      rw [if_neg (by decide), if_pos (by decide)]
      rfl
  | @value v w h =>
      have hparse : parseColorArg stderr prog ("--color=".toList ++ v) = .ok w := by
        rw [parseColorArg_value, (parseWhen_iff w).mpr h]
        rfl
      rw [if_neg (by simp), if_pos (by simp), hparse]
      rfl

theorem scanFrom_setsScheme (h : SetsScheme arg s) (junk : List Slot) :
    scanFrom stderr prog kept (arg :: rest) junk mode scheme =
      scanFrom stderr prog kept rest (none :: junk) mode s := by
  rw [scanFrom_arg]
  cases h with
  | @value v s h =>
      have hparse : parseSchemeArg stderr prog ("--color-scheme=".toList ++ v) = .ok s := by
        rw [parseSchemeArg_value, (parseScheme_iff s).mpr h]
        rfl
      rw [if_neg (by simp), if_neg (by simp), if_pos (by simp), hparse]
      rfl

theorem scanFrom_bad (h : BadFlag arg) (junk : List Slot) :
    ∃ err, scanFrom stderr prog kept (arg :: rest) junk mode scheme = .error (.exit 2 err) := by
  rw [scanFrom_arg]
  cases h with
  | @mode v h =>
      rw [if_neg (by simp), if_pos (by simp), parseColorArg_value, parseWhen_none.mpr h]
      exact ⟨_, rfl⟩
  | @scheme v h =>
      rw [if_neg (by simp), if_neg (by simp), if_pos (by simp), parseSchemeArg_value,
        parseScheme_none.mpr h]
      exact ⟨_, rfl⟩

theorem scanFrom_other (h : ¬ IsFlag arg) (junk : List Slot) :
    scanFrom stderr prog kept (arg :: rest) junk mode scheme =
      scanFrom stderr prog (kept ++ [arg]) rest junk mode scheme := by
  obtain ⟨hno, hcolor, hvalue, hscheme⟩ := not_isFlag.mp h
  rw [scanFrom_arg, if_neg hno, if_neg, if_neg]
  · rwa [List.isPrefixOf_iff_prefix]
  · rw [Bool.or_eq_true, List.isPrefixOf_iff_prefix, decide_eq_true_eq]
    exact not_or.mpr ⟨hvalue, hcolor⟩

end Scanning

section Runs
variable {stderr prog arg : List Char} {mode w : When} {scheme s : Scheme}
  {kept rest : List (List Char)} {d : Done}

/-- `argv` with its null pointer. -/
def argvOf (args : List (List Char)) : List Slot := args.map some ++ [none]

def others (args : List (List Char)) : List (List Char) := args.filter fun arg => ¬ IsFlag arg

/-- How a scan ends that has kept some arguments and finds others. -/
structure Resolved (kept rest : List (List Char)) (mode : When) (scheme : Scheme) (d : Done) :
    Prop where
  argc : d.argc = (kept ++ others rest).length
  argv : d.argv.take (d.argc + 1) = argvOf (kept ++ others rest)
  mode : LastSets SetsMode mode rest d.mode
  scheme : LastSets SetsScheme scheme rest d.scheme

theorem Resolved.nil (junk : List Slot) :
    Resolved kept [] mode scheme
      ⟨kept.length, kept.map some ++ none :: junk, mode, scheme, stderr⟩ where
  argc := by rw [others, List.filter_nil, List.append_nil]
  argv := by
    have hlen : kept.length + 1 = (kept.map some ++ [none]).length := by
      rw [List.length_append, List.length_map, List.length_singleton]
    rw [others, List.filter_nil, List.append_nil, argvOf]
    change (kept.map some ++ none :: junk).take (kept.length + 1) = _
    rw [List.append_cons, hlen, List.take_left]
  mode := .nil
  scheme := .nil

theorem others_flag (h : IsFlag arg) : others (arg :: rest) = others rest :=
  List.filter_cons_of_neg (by simpa using h)

theorem others_other (h : ¬ IsFlag arg) :
    kept ++ others (arg :: rest) = kept ++ [arg] ++ others rest := by
  rw [others, List.filter_cons_of_pos (by simpa using h), List.append_cons]
  rfl

theorem Resolved.sets (hflag : IsFlag arg) (hmode : LastSets SetsMode mode (arg :: rest) d.mode)
    (hscheme : LastSets SetsScheme scheme (arg :: rest) d.scheme) (h : Resolved kept rest w s d) :
    Resolved kept (arg :: rest) mode scheme d where
  argc := by rw [others_flag hflag, h.argc]
  argv := by rw [others_flag hflag, h.argv]
  mode := hmode
  scheme := hscheme

theorem Resolved.keep (hother : ¬ IsFlag arg) (h : Resolved (kept ++ [arg]) rest mode scheme d) :
    Resolved kept (arg :: rest) mode scheme d where
  argc := by rw [others_other hother, h.argc]
  argv := by rw [others_other hother, h.argv]
  mode := .skip (not_setsMode (by simp [effect_other hother])) h.mode
  scheme := .skip (not_setsScheme (by simp [effect_other hother])) h.scheme

/-- The scan ends with status 2 if there is a bad flag, and resolves the flags if not. -/
theorem scan_resolved (rest : List (List Char)) (junk : List Slot) :
    (∃ arg ∈ rest, BadFlag arg) ∧
        (∃ err, scanFrom stderr prog kept rest junk mode scheme = .error (.exit 2 err)) ∨
      (¬ ∃ arg ∈ rest, BadFlag arg) ∧
        ∃ d, scanFrom stderr prog kept rest junk mode scheme = .ok d ∧
          Resolved kept rest mode scheme d := by
  induction rest generalizing kept junk mode scheme with
  | nil =>
      refine Or.inr ⟨?_, _, scanFrom_nil junk, .nil junk⟩
      rintro ⟨arg, hmem, _⟩
      exact List.not_mem_nil hmem
  | cons arg rest ih =>
      rcases arg_cases arg with hother | ⟨hflag, ⟨w, hw⟩ | ⟨s, hs⟩ | hbad⟩
      · have heffect := effect_other hother
        rw [scanFrom_other hother, exists_bad_cons (by rw [heffect]; exact Effect.noConfusion)]
        refine (ih junk).imp id (And.imp_right fun ⟨d, hrun, h⟩ => ⟨d, hrun, ?_⟩)
        exact h.keep hother
      · have heffect := hw.effect_eq
        rw [scanFrom_setsMode hw, exists_bad_cons (by rw [heffect]; exact Effect.noConfusion)]
        refine (ih (none :: junk)).imp id (And.imp_right fun ⟨d, hrun, h⟩ => ⟨d, hrun, ?_⟩)
        exact h.sets hflag (.sets hw h.mode) (.skip (not_setsScheme (by simp [heffect])) h.scheme)
      · have heffect := hs.effect_eq
        rw [scanFrom_setsScheme hs, exists_bad_cons (by rw [heffect]; exact Effect.noConfusion)]
        refine (ih (none :: junk)).imp id (And.imp_right fun ⟨d, hrun, h⟩ => ⟨d, hrun, ?_⟩)
        exact h.sets hflag (.skip (not_setsMode (by simp [heffect])) h.mode) (.sets hs h.scheme)
      · exact Or.inl ⟨⟨arg, List.mem_cons_self, hbad⟩, scanFrom_bad hbad junk⟩

end Runs

/-! ## The environment and the whole function -/

section Init
variable {α β : Type} {env : Environment} {prog : List Char} {args : List (List Char)}

/-- `y` is what the variable says, or the default if it says nothing valid. -/
def FromEnv (R : α → β → Prop) (default : β) (value : Option α) (y : β) : Prop :=
  (∃ v ∈ value, R v y) ∨ (∀ v ∈ value, ∀ y', ¬ R v y') ∧ y = default

theorem envColor_value {value : List Char} (h : env.color = some value) :
    (envColor env prog).1 = (ipuColorParseWhen value).getD .auto := by
  by_cases hne : value = []
  · rw [envColor, h, hne]
    rfl
  · rw [envColor, h, nonEmpty, Option.filter_some_pos (by simpa using hne)]
    cases hparse : ipuColorParseWhen value <;> simp only [hparse] <;> rfl

theorem envColor_fromEnv (env : Environment) (prog : List Char) :
    FromEnv NamesWhen .auto env.color (envColor env prog).1 := by
  unfold FromEnv
  cases hcolor : env.color with
  | none =>
      refine Or.inr ⟨fun v hv => absurd hv (Option.not_mem_none v), ?_⟩
      rw [envColor, hcolor]
      rfl
  | some value =>
      rw [envColor_value hcolor]
      cases hparse : ipuColorParseWhen value with
      | none => exact Or.inr ⟨fun v hv => Option.mem_some.mp hv ▸ parseWhen_none.mp hparse, rfl⟩
      | some w => exact Or.inl ⟨value, rfl, (parseWhen_iff w).mp hparse⟩

/-- The scheme of the environment ends the program if it is not empty and not valid. -/
theorem envScheme_cases (env : Environment) (stderr prog : List Char) :
    (∃ v ∈ env.scheme, v ≠ [] ∧ ∀ s, ¬ NamesScheme v s) ∧
        (∃ err, envScheme env stderr prog = .error (.exit 2 err)) ∨
      (¬ ∃ v ∈ env.scheme, v ≠ [] ∧ ∀ s, ¬ NamesScheme v s) ∧
        ∃ s, envScheme env stderr prog = .ok s ∧ FromEnv NamesScheme .default env.scheme s := by
  unfold envScheme FromEnv
  cases hscheme : env.scheme with
  | none =>
      exact Or.inr ⟨by simp, .default, rfl,
        Or.inr ⟨fun v hv => absurd hv (Option.not_mem_none v), rfl⟩⟩
  | some value =>
      by_cases hne : value = []
      · subst hne
        exact Or.inr ⟨by simp, .default, rfl,
          Or.inr ⟨fun v hv => Option.mem_some.mp hv ▸ parseScheme_none.mp rfl, rfl⟩⟩
      · rw [nonEmpty, Option.filter_some_pos (by simpa using hne)]
        cases hparse : ipuColorParseScheme value with
        | none =>
            simp only [hparse]
            exact Or.inl ⟨⟨value, rfl, hne, parseScheme_none.mp hparse⟩, _, rfl⟩
        | some s =>
            simp only [hparse]
            have hs := (parseScheme_iff s).mp hparse
            refine Or.inr ⟨?_, s, rfl, Or.inl ⟨value, rfl, hs⟩⟩
            rintro ⟨v, hv, _, hnone⟩
            exact hnone s (Option.mem_some.mp hv ▸ hs)

theorem ipuColorInit_scan {s : Scheme}
    (h : envScheme env (envColor env prog).2 prog = .ok s) :
    ipuColorInit env (args.length + 1) (argvOf (prog :: args)) =
      scanFrom (envColor env prog).2 prog [prog] args [] (envColor env prog).1 s := by
  rw [scanFrom, List.length_singleton, Nat.add_comm 1]
  change (envScheme env (envColor env prog).2 prog >>= fun scheme =>
    scan (envColor env prog).2 prog (args.length + 1) 1 (argvOf (prog :: args))
      (envColor env prog).1 scheme) = _
  rw [h]
  rfl

/-- What the tool finds after the call. -/
structure Initialised (env : Environment) (prog : List Char) (args : List (List Char))
    (d : Done) : Prop where
  argc : d.argc = (prog :: others args).length
  argv : d.argv.take (d.argc + 1) = argvOf (prog :: others args)
  mode : ∃ w, FromEnv NamesWhen .auto env.color w ∧ LastSets SetsMode w args d.mode
  scheme : ∃ s, FromEnv NamesScheme .default env.scheme s ∧ LastSets SetsScheme s args d.scheme

theorem ipuColorInit_cases (env : Environment) (prog : List Char) (args : List (List Char)) :
    BadSettings env args ∧ (∃ err,
        ipuColorInit env (args.length + 1) (argvOf (prog :: args)) = .error (.exit 2 err)) ∨
      ¬ BadSettings env args ∧ ∃ d,
        ipuColorInit env (args.length + 1) (argvOf (prog :: args)) = .ok d ∧
          Initialised env prog args d := by
  unfold BadSettings
  rcases envScheme_cases env (envColor env prog).2 prog with
    ⟨hbad, err, henv⟩ | ⟨hgood, s, henv, hs⟩
  · refine Or.inl ⟨Or.inl hbad, err, ?_⟩
    change (envScheme env (envColor env prog).2 prog >>= fun scheme =>
      scan (envColor env prog).2 prog (args.length + 1) 1 (argvOf (prog :: args))
        (envColor env prog).1 scheme) = _
    rw [henv]
    rfl
  · rw [ipuColorInit_scan henv, or_iff_right hgood]
    refine (scan_resolved args []).imp id (And.imp_right fun ⟨d, hrun, h⟩ => ⟨d, hrun, ?_⟩)
    exact ⟨h.argc, h.argv, ⟨_, envColor_fromEnv env prog, h.mode⟩, ⟨s, hs, h.scheme⟩⟩

/-- The flags of the colour module are taken out, and the last of each kind decides. -/
theorem color_flags_resolved (env : Environment) (prog : List Char) (args : List (List Char)) :
    ((∃ err, ipuColorInit env (args.length + 1) (argvOf (prog :: args)) = .error (.exit 2 err)) ↔
      BadSettings env args) ∧
    (BadSettings env args ∨ ∃ d,
      ipuColorInit env (args.length + 1) (argvOf (prog :: args)) = .ok d ∧
        Initialised env prog args d) := by
  rcases ipuColorInit_cases env prog args with ⟨hbad, hexit⟩ | ⟨hgood, d, hrun, h⟩
  · exact ⟨iff_of_true hexit hbad, Or.inl hbad⟩
  · refine ⟨iff_of_false ?_ hgood, Or.inr ⟨d, hrun, h⟩⟩
    rintro ⟨err, hexit⟩
    cases hrun.symm.trans hexit

end Init

end Iputils.ColorFlags
