import Mathlib.Data.List.DropRight
import Iputils.MachineInt

/-!
# The file of the trust pin

The key of the bridge is pinned in a file below the home directory, one for each
program. `--reset-brightlink-pin` builds the path of that file in one buffer and
removes it; `bl_glue_get_geo` builds the directory in another and leaves the rest to
the pin store. Both start from `argv[0]` and the home directory, and every buffer
cuts off what does not fit. Strings are lists of characters without the terminator.
-/
set_option autoImplicit false

namespace Iputils.PinPath
open MachineInt

/-- `snprintf (out, cap, "%s", s)`: the text in the buffer and the return value. -/
def snprintf (cap : ℕ) (s : List Char) : List Char × ℤ :=
  (s.take (cap - 1), if (s.length : ℤ) ≤ intMax then s.length else -1)

/-- The text fits, as the callers that look at the return value see it. -/
def Fits (cap : ℕ) (s : List Char) : Prop := (snprintf cap s).2 > 0 ∧ (snprintf cap s).2 < cap

instance (cap : ℕ) (s : List Char) : Decidable (Fits cap s) := inferInstanceAs (Decidable (_ ∧ _))

/-- `basename` of `libgen.h`. -/
def basename (path : List Char) : List Char :=
  if path = [] then ['.']
  else
    let path := path.rdropWhile fun c => c = '/'
    if path = [] then ['/'] else path.rtakeWhile fun c => c ≠ '/'

def idChar (c : Char) : Bool :=
  ('A' ≤ c && c ≤ 'Z') || ('a' ≤ c && c ≤ 'z') || ('0' ≤ c && c ≤ '9') ||
    c = '.' || c = '-' || c = '_'

def fallbackId : List Char := "iputils".toList

/-- `argv0` is `none` for a null pointer. -/
def blGlueBinaryId (argv0 : Option (List Char)) (cap : ℕ) : List Char :=
  let tmp := (snprintf 256 (if argv0.getD [] = [] then fallbackId else argv0.getD [])).1
  let out := ((basename tmp).filter idChar).take (cap - 1)
  if out = [] ∨ out.head? = some '.' then (snprintf cap fallbackId).1 else out

/-- The environment variable, or the directory from the password database. -/
def blGlueHome (home pwDir : Option (List Char)) : Option (List Char) :=
  if home.getD [] = [] then pwDir else home

def pinDirOf (home : List Char) : List Char := home ++ "/.brightchain/iputils-pins".toList

def pinFileOf (dir id : List Char) : List Char := dir ++ '/' :: id ++ ".sep-pub".toList

inductive Fault
  | noHome
  | noParent
  | invalid
  | noDirectory
  | memory
  | tooLong
deriving Repr, DecidableEq

/-- The path that `--reset-brightlink-pin` removes; `cap` is the size of its buffer. -/
def blGluePinPath (home : Option (List Char)) (argv0 : Option (List Char)) (cap : ℕ) :
    Except Fault (List Char) :=
  match home with
  | none => .error .noHome
  | some home =>
      let path := pinFileOf (pinDirOf home) (blGlueBinaryId argv0 64)
      if Fits cap path then .ok (snprintf cap path).1 else .error .tooLong

/-- The outcomes of `mkdir` for the parent and for the directory, and of `calloc`. -/
structure System where
  parent : Bool := true
  directory : Bool := true
  memory : Bool := true
deriving Repr, DecidableEq

def validBinaryId (id : List Char) : Bool := id ≠ [] && id.head? ≠ some '.' && id.all idChar

/-- The path of the file that the store reads and writes. -/
def blPinStoreFile (sys : System) (dir id : List Char) : Except Fault (List Char) :=
  if dir = [] ∨ ¬ validBinaryId id then .error .invalid
  else if ¬ sys.directory then .error .noDirectory
  else if ¬ sys.memory then .error .memory
  else if Fits 1024 (pinFileOf dir id) then .ok (snprintf 1024 (pinFileOf dir id)).1
  else .error .tooLong

/-- `bl_glue_get_geo` up to the pin store. -/
def blGlueStore (sys : System) (home : Option (List Char)) (argv0 : Option (List Char)) :
    Except Fault (List Char) :=
  match home with
  | none => .error .noHome
  | some home =>
      if ¬ sys.parent then .error .noParent
      else blPinStoreFile sys (snprintf 1024 (pinDirOf home)).1 (blGlueBinaryId argv0 64)

/-- A name that is safe as a component of a path. -/
structure SafeId (id : List Char) : Prop where
  nonempty : id ≠ []
  chars : ∀ c ∈ id, idChar c
  short : id.length ≤ 63
  visible : id.head? ≠ some '.'

theorem safeId_fallback : SafeId (snprintf 64 fallbackId).1 := by
  have hall : (snprintf 64 fallbackId).1.all idChar = true := by decide +kernel
  exact ⟨by decide +kernel, List.all_eq_true.mp hall, by decide +kernel, by decide +kernel⟩

theorem safeId_blGlueBinaryId (argv0 : Option (List Char)) : SafeId (blGlueBinaryId argv0 64) := by
  unfold blGlueBinaryId
  dsimp only
  generalize (snprintf 256 (if argv0.getD [] = [] then fallbackId else argv0.getD [])).1 = tmp
  split_ifs with hout
  · exact safeId_fallback
  · obtain ⟨hne, hdot⟩ := not_or.mp hout
    refine ⟨hne, ?_, List.length_take_le _ _, hdot⟩
    intro c hc
    exact List.of_mem_filter (List.mem_of_mem_take hc)

theorem SafeId.valid {id : List Char} (h : SafeId id) : validBinaryId id = true := by
  simp only [validBinaryId, Bool.and_eq_true, decide_eq_true_eq, ne_eq, List.all_eq_true]
  exact ⟨⟨h.nonempty, h.visible⟩, h.chars⟩

theorem fits_iff {s : List Char} (h : s ≠ []) : Fits 1024 s ↔ s.length < 1024 := by
  have hpos := List.length_pos_iff.mpr h
  unfold Fits snprintf intMax
  dsimp only
  split_ifs <;> constructor <;> intro hx <;> omega

theorem snprintf_of_lt {cap : ℕ} {s : List Char} (h : s.length < cap) : (snprintf cap s).1 = s :=
  List.take_of_length_le (by omega)

theorem pinFileOf_ne_nil (dir id : List Char) : pinFileOf dir id ≠ [] := by simp [pinFileOf]

theorem length_pinFileOf (dir id : List Char) :
    (pinFileOf dir id).length = dir.length + id.length + 9 := by
  have hext : ".sep-pub".toList.length = 8 := rfl
  simp only [pinFileOf, List.length_append, List.length_cons, hext]
  omega

/-- A directory that was cut off fills its buffer, and the path no longer fits. -/
theorem fits_truncated_dir (dir id : List Char) :
    Fits 1024 (pinFileOf (snprintf 1024 dir).1 id) ↔ Fits 1024 (pinFileOf dir id) := by
  rw [fits_iff (pinFileOf_ne_nil _ _), fits_iff (pinFileOf_ne_nil _ _), length_pinFileOf,
    length_pinFileOf]
  simp only [snprintf, List.length_take]
  omega

/-- The store looks for the pin where the reset removes it, unless the system fails. -/
theorem blGlueStore_eq (home : Option (List Char)) (argv0 : Option (List Char)) :
    blGlueStore {} home argv0 = blGluePinPath home argv0 1024 := by
  cases home with
  | none => rfl
  | some home =>
      have hvalid := (safeId_blGlueBinaryId argv0).valid
      have hdir : (snprintf 1024 (pinDirOf home)).1 ≠ [] := by
        simp [snprintf, pinDirOf]
      have hcond : ¬ ((snprintf 1024 (pinDirOf home)).1 = [] ∨
          ¬ validBinaryId (blGlueBinaryId argv0 64)) := by
        simp [hdir, hvalid]
      simp only [blGlueStore, blPinStoreFile, blGluePinPath, if_neg hcond, fits_truncated_dir]
      by_cases hfit : Fits 1024 (pinFileOf (pinDirOf home) (blGlueBinaryId argv0 64))
      · have hlen := (fits_iff (pinFileOf_ne_nil _ _)).mp hfit
        rw [length_pinFileOf] at hlen
        simp [hfit, snprintf_of_lt (by omega : (pinDirOf home).length < 1024)]
      · simp [hfit]

/-- The directories exist or could be made, and there is memory. -/
def System.Works (sys : System) : Prop :=
  sys.parent = true ∧ sys.directory = true ∧ sys.memory = true

/-- A failing system ends the call with an error of its own. -/
theorem blGlueStore_cases (sys : System) (home : Option (List Char)) (argv0 : Option (List Char)) :
    blGlueStore sys home argv0 = blGluePinPath home argv0 1024 ∨
      ¬ sys.Works ∧ ∃ fault, blGlueStore sys home argv0 = .error fault ∧ fault ≠ .tooLong := by
  by_cases hworks : sys.Works
  · obtain ⟨hp, hd, hm⟩ := hworks
    have hsys : sys = {} := by
      cases sys
      simp_all
    rw [hsys]
    exact Or.inl (blGlueStore_eq home argv0)
  · cases home with
    | none => exact Or.inl rfl
    | some home =>
        refine Or.inr ⟨hworks, ?_⟩
        unfold blGlueStore blPinStoreFile
        dsimp only
        by_cases hparent : sys.parent = true
        · rw [if_neg (not_not_intro hparent)]
          split
          · exact ⟨.invalid, rfl, by decide⟩
          · by_cases hdir : sys.directory = true
            · have hmem : ¬ sys.memory = true := fun hmem => hworks ⟨hparent, hdir, hmem⟩
              rw [if_neg (not_not_intro hdir), if_pos hmem]
              exact ⟨.memory, rfl, by decide⟩
            · rw [if_pos hdir]
              exact ⟨.noDirectory, rfl, by decide⟩
        · rw [if_pos hparent]
          exact ⟨.noParent, rfl, by decide⟩

/-- For every `argv[0]` and every home the name is safe, the reset removes the file that
the store uses, and neither is stopped by a length that does not stop the other. -/
theorem reset_removes_used_pin (argv0 home pwDir : Option (List Char)) (sys : System) :
    SafeId (blGlueBinaryId argv0 64) ∧
    (∀ removed used, blGluePinPath (blGlueHome home pwDir) argv0 1024 = .ok removed →
      blGlueStore sys (blGlueHome home pwDir) argv0 = .ok used → removed = used) ∧
    (blGlueStore sys (blGlueHome home pwDir) argv0 = .error .tooLong →
      blGluePinPath (blGlueHome home pwDir) argv0 1024 = .error .tooLong) ∧
    (blGluePinPath (blGlueHome home pwDir) argv0 1024 = .error .tooLong → sys.Works →
      blGlueStore sys (blGlueHome home pwDir) argv0 = .error .tooLong) := by
  refine ⟨safeId_blGlueBinaryId argv0, ?_⟩
  rcases blGlueStore_cases sys (blGlueHome home pwDir) argv0 with heq | ⟨hfail, fault, heq, hne⟩
  · rw [heq]
    refine ⟨?_, id, fun h _ => h⟩
    intro removed used hremoved hused
    exact Except.ok.inj (hremoved.symm.trans hused)
  · rw [heq]
    refine ⟨?_, ?_, fun _ hworks => absurd hworks hfail⟩
    · intro removed used _ hused
      cases hused
    · intro h
      exact absurd (Except.error.inj h) hne

theorem reset_removes_used_pin_bping :
    blGluePinPath (some "/root".toList) (some "/usr/bin/bping".toList) 1024 =
        .ok "/root/.brightchain/iputils-pins/bping.sep-pub".toList ∧
      ∀ used, blGlueStore {} (some "/root".toList) (some "/usr/bin/bping".toList) = .ok used →
        "/root/.brightchain/iputils-pins/bping.sep-pub".toList = used := by
  have hpath : blGluePinPath (some "/root".toList) (some "/usr/bin/bping".toList) 1024 =
      .ok "/root/.brightchain/iputils-pins/bping.sep-pub".toList := by decide +kernel
  refine ⟨hpath, fun used hused => ?_⟩
  exact (reset_removes_used_pin (some "/usr/bin/bping".toList) (some "/root".toList) none {}).2.1
    _ used hpath hused

end Iputils.PinPath
