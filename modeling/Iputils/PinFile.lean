import Iputils.LinkRuns

/-!
# The pin on disk

The store of the tools keeps the pin in a file of 70 bytes. A save writes another file next
to it and renames that file when it is complete. All processes of one program use the same
two names, and none of them looks for the others; any call of the system can fail, and a
process can stop anywhere.
-/
set_option autoImplicit false

namespace Iputils.PinFile
open LinkClient

section Code

/-- `BL_PIN_FILE_MAGIC` and `BL_PIN_FILE_VERSION` -/
def pinHeader : List UInt8 := [66, 76, 80, 49, 1]

/-- The two entries of the directory, and the contents of the files behind them. A file that
has lost its entry is still there for those who have opened it. -/
structure Disk where
  nodes : ℕ → List UInt8
  fresh : ℕ
  pin : Option ℕ
  new : Option ℕ
  apart : ∀ i, pin = some i → new ≠ some i
  old : ∀ i, pin = some i ∨ new = some i → i < fresh

/-- What a call of the system does; a read or a write can stop early. -/
inductive Outcome
  | ok
  | short (n : ℕ)
  | fails
deriving DecidableEq

/-- The bytes that a read gives or a write writes. -/
def Outcome.part (o : Outcome) (bytes : List UInt8) : List UInt8 :=
  match o with
  | .ok => bytes
  | .short n => bytes.take n
  | .fails => []

/-- What `file_load` makes of the contents of the file. -/
def readPin (content : List UInt8) : Option (List.Vector UInt8 65) :=
  let buf := content.take 70
  if buf.length ≠ 70 then none
  else if buf.take 5 ≠ pinHeader then none
  else if (buf.drop 5).head? ≠ some 0x04 then none
  else exactly 65 (buf.drop 5)

/-- `file_load`, with what its two calls do -/
def fileLoadCalls (d : Disk) (opens reads : Outcome) : Option (List.Vector UInt8 65) :=
  if opens ≠ .ok then none else d.pin.bind fun i => readPin (reads.part (d.nodes i))

/-- `file_load` if neither of them fails. -/
def fileLoad (d : Disk) : Option (List.Vector UInt8 65) := d.pin.bind fun i => readPin (d.nodes i)

/-- Where `file_save` is. The first call that fails ends it (`refused`); later it removes the
file that it has opened (`failing`). -/
inductive Pc
  | start
  | refused
  | opened (i : ℕ)
  | headed (i : ℕ)
  | written (i : ℕ)
  | synced (i : ℕ)
  | closed
  | failing
  | done (ok : Bool)
deriving DecidableEq

/-- The contents of a file after a write; a gap before it is filled with zeros. -/
def writeAt (content : List UInt8) (off : ℕ) (bytes : List UInt8) : List UInt8 :=
  if bytes = [] then content
  else
    content.take off ++ List.replicate (off - content.length) 0 ++ bytes ++
      content.drop (off + bytes.length)

variable (d : Disk)

def Disk.set (i : ℕ) (content : List UInt8) : Disk :=
  { d with nodes := Function.update d.nodes i content }

theorem apart_create (i : ℕ) (h : d.pin = some i) : some d.fresh ≠ some i := by
  intro heq
  have hlt := d.old i (Or.inl h)
  have hfresh := Option.some.inj heq
  omega

theorem old_create (i : ℕ) (h : d.pin = some i ∨ some d.fresh = some i) : i < d.fresh + 1 := by
  rcases h with h | h
  · have hlt := d.old i (Or.inl h)
    omega
  · have hfresh := Option.some.inj h
    omega

/-- `open` with `O_CREAT | O_TRUNC` -/
def Disk.openNew : Disk × ℕ :=
  match d.new with
  | some i => (d.set i [], i)
  | none =>
      ({ d with
          nodes := Function.update d.nodes d.fresh []
          fresh := d.fresh + 1
          new := some d.fresh
          apart := apart_create d
          old := old_create d }, d.fresh)

theorem apart_none {i : ℕ} : (none : Option ℕ) ≠ some i :=
  (Option.some_ne_none i).symm

theorem old_unlink (i : ℕ) (h : d.pin = some i ∨ none = some i) : i < d.fresh :=
  d.old i (h.imp_right fun h => absurd h apart_none)

theorem old_rename (i : ℕ) (h : d.new.or d.pin = some i ∨ none = some i) : i < d.fresh := by
  rcases h with h | h
  · exact d.old i (Or.symm ((Option.or_eq_some_iff.mp h).imp_right And.right))
  · exact absurd h apart_none

def Disk.unlinkNew : Disk :=
  { d with new := none, apart := fun _ _ => apart_none, old := old_unlink d }

/-- `rename` of an entry that is there. -/
def Disk.rename : Disk :=
  { d with pin := d.new.or d.pin, new := none, apart := fun _ _ => apart_none, old := old_rename d }

/-- A write of `file_save`: it goes on only if all bytes have been written. -/
def writeStep (i off : ℕ) (bytes : List UInt8) (next : Pc) (o : Outcome) : Disk × Pc :=
  let part := o.part bytes
  (d.set i (writeAt (d.nodes i) off part), if part.length = bytes.length then next else .failing)

/-- A call that only succeeds or fails. -/
def callStep (next : Pc) (o : Outcome) : Disk × Pc := (d, if o = .ok then next else .failing)

/-- The calls of `file_save`, one at a time. -/
def fileSave (pub65 : List.Vector UInt8 65) (pc : Pc) (o : Outcome) : Disk × Pc :=
  match pc with
  | .start =>
      if pub65.head ≠ 0x04 ∨ o ≠ .ok then (d, .refused)
      else
        let (d, i) := d.openNew
        (d, .opened i)
  | .opened i => writeStep d i 0 pinHeader (.headed i) o
  | .headed i => writeStep d i 5 pub65.toList (.written i) o
  | .written i => callStep d (.synced i) o
  | .synced _ => callStep d .closed o
  | .closed =>
      if o = .ok ∧ d.new ≠ none then (d.rename, .done true) else (d, .failing)
  | .failing => (if o = .ok then d.unlinkNew else d, .done false)
  | .refused => (d, .refused)
  | .done ok => (d, .done ok)

/-- The file that a process has open. -/
def Pc.holds : Pc → Option ℕ
  | .opened i | .headed i | .written i | .synced i => some i
  | _ => none

/-- The process has opened the new file. -/
def Pc.begun : Pc → Bool
  | .start | .refused => false
  | _ => true

/-- The process has ended, or is about to. -/
def Pc.ended (pc : Pc) : Prop := pc = .failing ∨ ∃ ok, pc = .done ok

end Code

section Contents
variable {content : List UInt8} {k : List.Vector UInt8 65} {d : Disk} {i j : ℕ}

/-- What a save puts into its file. -/
def pinBytes (k : List.Vector UInt8 65) : List UInt8 := pinHeader ++ k.toList

theorem pinBytes_length (k : List.Vector UInt8 65) : (pinBytes k).length = 70 := by
  rw [pinBytes, List.length_append, List.Vector.toList_length]
  rfl

theorem head?_toList (k : List.Vector UInt8 65) : k.toList.head? = some k.head := by
  obtain ⟨l, hl⟩ := k
  cases l with
  | nil => cases hl
  | cons b l => rfl

theorem exactly_eq_some {n : ℕ} {bytes : List UInt8} {v : List.Vector UInt8 n} :
    exactly n bytes = some v ↔ bytes = v.toList := by
  obtain ⟨l, hl⟩ := v
  unfold exactly
  constructor
  · intro h
    split_ifs at h
    exact congrArg List.Vector.toList (Option.some.inj h)
  · rintro rfl
    exact dif_pos hl

/-- The keys that can be read from a file: those that a save has written. -/
theorem readPin_some : readPin content = some k ↔ content.take 70 = pinBytes k ∧ k.head = 0x04 := by
  have hfront : (pinBytes k).take 5 = pinHeader := rfl
  have hback : (pinBytes k).drop 5 = k.toList := rfl
  unfold readPin
  dsimp only
  constructor
  · intro h
    split_ifs at h with hlen hheader hhead
    rw [exactly_eq_some] at h
    rw [not_not] at hheader hhead
    refine ⟨?_, ?_⟩
    · rw [pinBytes, ← h, ← hheader, List.take_append_drop]
    · rw [h, head?_toList] at hhead
      exact Option.some.inj hhead
  · rintro ⟨hcontent, hhead⟩
    rw [hcontent, hfront, hback, head?_toList, hhead]
    simp [pinBytes_length, exactly_eq_some]

theorem fileLoadCalls_ok (d : Disk) : fileLoadCalls d .ok .ok = fileLoad d := rfl

theorem take_part (o : Outcome) (content : List UInt8) : ∃ n, o.part content = content.take n := by
  cases o with
  | ok => exact ⟨content.length, List.take_length.symm⟩
  | short n => exact ⟨n, rfl⟩
  | fails => exact ⟨0, rfl⟩

/-- A load whose calls fail or stop early gives nothing else than a complete one. -/
theorem fileLoadCalls_some {opens reads : Outcome} (h : fileLoadCalls d opens reads = some k) :
    fileLoad d = some k := by
  unfold fileLoadCalls at h
  split_ifs at h
  obtain ⟨i, hpin, hread⟩ := Option.bind_eq_some_iff.mp h
  obtain ⟨hcontent, hhead⟩ := readPin_some.mp hread
  obtain ⟨n, hn⟩ := take_part reads (d.nodes i)
  refine Option.bind_eq_some_iff.mpr ⟨i, hpin, readPin_some.mpr ⟨?_, hhead⟩⟩
  have hlen := congrArg List.length hcontent
  rw [hn, List.length_take, List.length_take, pinBytes_length] at hlen
  rw [← hcontent, hn, List.take_take, Nat.min_eq_left (by omega)]

theorem fileLoad_some : fileLoad d = some k ↔
    ∃ i, d.pin = some i ∧ (d.nodes i).take 70 = pinBytes k ∧ k.head = 0x04 := by
  simp only [fileLoad, Option.bind_eq_some_iff, readPin_some]

/-- Only the entry and the file of the pin matter. -/
theorem fileLoad_congr {d' : Disk} (hpin : d'.pin = d.pin)
    (hnodes : ∀ i, d.pin = some i → d'.nodes i = d.nodes i) : fileLoad d' = fileLoad d := by
  unfold fileLoad
  rw [hpin]
  cases hold : d.pin with
  | none => rfl
  | some i => rw [Option.bind_some, Option.bind_some, hnodes i hold]

theorem fileLoad_set (h : d.pin ≠ some i) : fileLoad (d.set i content) = fileLoad d := by
  refine fileLoad_congr rfl fun j hj => ?_
  have hne : j ≠ i := by
    rintro rfl
    exact h hj
  exact Function.update_of_ne hne _ _

theorem not_pin (h : d.new = some i) : d.pin ≠ some i := fun hpin => d.apart i hpin h

/-- What is known of the file after it has been opened. -/
theorem openNew_spec (d : Disk) :
    d.openNew.1.new = some d.openNew.2 ∧ d.openNew.1.nodes d.openNew.2 = [] ∧
      d.openNew.1.pin = d.pin ∧ d.pin ≠ some d.openNew.2 ∧
      ∀ i, i ≠ d.openNew.2 → d.openNew.1.nodes i = d.nodes i := by
  unfold Disk.openNew
  split
  · next j hnew =>
      exact ⟨hnew, Function.update_self _ _ _, rfl, not_pin hnew,
        fun i hi => Function.update_of_ne hi _ _⟩
  · refine ⟨rfl, Function.update_self _ _ _, rfl, fun h => ?_,
      fun i hi => Function.update_of_ne hi _ _⟩
    have hlt := d.old _ (Or.inl h)
    omega

theorem fileLoad_openNew (d : Disk) : fileLoad d.openNew.1 = fileLoad d := by
  obtain ⟨-, -, hpin, hne, hnodes⟩ := openNew_spec d
  refine fileLoad_congr hpin fun i hi => hnodes i ?_
  rintro rfl
  exact hne hi

end Contents

section Alone
variable {pub65 : List.Vector UInt8 65} {held : Option (List.Vector UInt8 65)}

/-- A save with what its calls do; without a next outcome it has been interrupted. -/
def trySave (pub65 : List.Vector UInt8 65) (outcomes : List Outcome) (d : Disk) : Disk × Pc :=
  outcomes.foldl (fun r o => fileSave r.1 pub65 r.2 o) (d, .start)

/-- The file that is being written. -/
structure Writing (content : List UInt8) (held : Option (List.Vector UInt8 65)) (i : ℕ)
    (d : Disk) : Prop where
  new : d.new = some i
  content : d.nodes i = content
  held : fileLoad d = held

/-- How far a save has come that nothing disturbs. The pin is the one from before until the
rename. -/
def Alone (pub65 : List.Vector UInt8 65) (held : Option (List.Vector UInt8 65)) :
    Disk × Pc → Prop
  | (d, .opened i) => pub65.head = 0x04 ∧ Writing [] held i d
  | (d, .headed i) => pub65.head = 0x04 ∧ Writing pinHeader held i d
  | (d, .written i) => pub65.head = 0x04 ∧ Writing (pinBytes pub65) held i d
  | (d, .synced i) => pub65.head = 0x04 ∧ Writing (pinBytes pub65) held i d
  | (d, .closed) => pub65.head = 0x04 ∧ ∃ i, Writing (pinBytes pub65) held i d
  | (d, .done true) => fileLoad d = some pub65
  | (d, _) => fileLoad d = held

theorem part_eq {o : Outcome} {bytes : List UInt8} (h : (o.part bytes).length = bytes.length) :
    o.part bytes = bytes := by
  cases o with
  | ok => rfl
  | short n =>
      refine List.take_of_length_le ?_
      rw [Outcome.part, List.length_take] at h
      omega
  | fails => exact (List.eq_nil_of_length_eq_zero h.symm).symm

/-- A write into the new file leads on to the longer contents or to a failure. -/
theorem alone_write {content bytes content' : List UInt8} {off i : ℕ} {d : Disk} {next : Pc}
    (h : Writing content held i d) (hwrite : writeAt content off bytes = content')
    (hnext : ∀ d', Writing content' held i d' → Alone pub65 held (d', next)) (o : Outcome) :
    Alone pub65 held (writeStep d i off bytes next o) := by
  have hheld : ∀ c, fileLoad (d.set i c) = held := fun c =>
    (fileLoad_set (not_pin h.new)).trans h.held
  unfold writeStep
  dsimp only
  split_ifs with hall
  · refine hnext _ ⟨h.new, ?_, hheld _⟩
    rw [part_eq hall, h.content, hwrite]
    exact Function.update_self _ _ _
  · exact hheld _

theorem toList_ne_nil (k : List.Vector UInt8 65) : k.toList ≠ [] := by
  intro h
  have hlen := k.toList_length
  rw [h] at hlen
  cases hlen

theorem writeAt_header (k : List.Vector UInt8 65) : writeAt pinHeader 5 k.toList = pinBytes k := by
  rw [writeAt, if_neg (toList_ne_nil k), List.drop_of_length_le (by simp [pinHeader])]
  simp [pinHeader, pinBytes]

theorem alone_step {r : Disk × Pc} (h : Alone pub65 held r) (o : Outcome) :
    Alone pub65 held (fileSave r.1 pub65 r.2 o) := by
  obtain ⟨d, pc⟩ := r
  cases pc with
  | start =>
      unfold fileSave
      dsimp only
      split_ifs with hrefuse
      · exact h
      · obtain ⟨hhead, -⟩ := not_or.mp hrefuse
        obtain ⟨hnew, hcontent, -⟩ := openNew_spec d
        exact ⟨not_not.mp hhead, hnew, hcontent, (fileLoad_openNew d).trans h⟩
  | refused => exact h
  | opened i =>
      have hwrite : writeAt [] 0 pinHeader = pinHeader := rfl
      change Alone pub65 held (writeStep d i 0 pinHeader (.headed i) o)
      exact alone_write h.2 hwrite (fun _ => And.intro h.1) o
  | headed i =>
      change Alone pub65 held (writeStep d i 5 pub65.toList (.written i) o)
      exact alone_write h.2 (writeAt_header pub65) (fun _ => And.intro h.1) o
  | written i =>
      unfold fileSave callStep
      dsimp only
      split_ifs
      · exact h
      · exact h.2.held
  | synced i =>
      unfold fileSave callStep
      dsimp only
      split_ifs
      · exact ⟨h.1, i, h.2⟩
      · exact h.2.held
  | closed =>
      obtain ⟨hhead, i, hw⟩ := h
      unfold fileSave
      dsimp only
      split_ifs
      · refine fileLoad_some.mpr ⟨i, ?_, ?_, hhead⟩
        · exact Option.or_eq_some_iff.mpr (Or.inl hw.new)
        · have hcontent : d.rename.nodes i = pinBytes pub65 := hw.content
          rw [hcontent]
          exact List.take_of_length_le (pinBytes_length _).le
      · exact hw.held
  | failing =>
      unfold fileSave
      dsimp only
      split_ifs
      · exact h
      · exact h
  | done ok => cases ok <;> exact h

theorem alone_run {r : Disk × Pc} (h : Alone pub65 held r) (outcomes : List Outcome) :
    Alone pub65 held (outcomes.foldl (fun r o => fileSave r.1 pub65 r.2 o) r) := by
  induction outcomes generalizing r with
  | nil => exact h
  | cons o outcomes ih => exact ih (alone_step h o)

/-- A save that nothing disturbs: the pin is the new one if the save has renamed its file, and
the old one otherwise, wherever the save has been interrupted and whatever has failed. -/
theorem trySave_load (d : Disk) (outcomes : List Outcome) :
    fileLoad (trySave pub65 outcomes d).1 =
      if (trySave pub65 outcomes d).2 = .done true then some pub65 else fileLoad d := by
  have hrun : Alone pub65 (fileLoad d) (trySave pub65 outcomes d) :=
    alone_run (r := (d, .start)) rfl outcomes
  generalize trySave pub65 outcomes d = r at hrun
  obtain ⟨d', pc⟩ := r
  cases pc with
  | start => exact hrun
  | refused => exact hrun
  | opened i => exact hrun.2.held
  | headed i => exact hrun.2.held
  | written i => exact hrun.2.held
  | synced i => exact hrun.2.held
  | closed =>
      obtain ⟨-, i, hw⟩ := hrun
      exact hw.held
  | failing => exact hrun
  | done ok => cases ok <;> exact hrun

/-- What a register holds after attempts to set it, each of which says whether it has. -/
def lastSet {α : Type} (held : Option α) (attempts : List (α × Bool)) : Option α :=
  attempts.foldl (fun held attempt => if attempt.2 then some attempt.1 else held) held

/-- The disk after saves one after the other, and which of them have renamed their file. -/
def saves (d : Disk) : List (List.Vector UInt8 65 × List Outcome) →
    Disk × List (List.Vector UInt8 65 × Bool)
  | [] => (d, [])
  | (pub65, outcomes) :: rest =>
      let r := trySave pub65 outcomes d
      let r' := saves r.1 rest
      (r'.1, (pub65, r.2 = .done true) :: r'.2)

theorem saves_load (d : Disk) (attempts : List (List.Vector UInt8 65 × List Outcome)) :
    fileLoad (saves d attempts).1 = lastSet (fileLoad d) (saves d attempts).2 := by
  induction attempts generalizing d with
  | nil => rfl
  | cons attempt attempts ih =>
      obtain ⟨pub65, outcomes⟩ := attempt
      rw [saves, ih, trySave_load]
      simp only [lastSet, List.foldl_cons, decide_eq_true_eq]

/-- As long as only one process saves at a time, the file is a register: it holds the last key
whose save has renamed its file, also if others have been interrupted halfway. A load gives this
key, or nothing if its own calls fail or stop early. -/
theorem saves_register (d : Disk) (attempts : List (List.Vector UInt8 65 × List Outcome)) :
    fileLoadCalls (saves d attempts).1 .ok .ok = lastSet (fileLoad d) (saves d attempts).2 ∧
      ∀ opens reads k, fileLoadCalls (saves d attempts).1 opens reads = some k →
        lastSet (fileLoad d) (saves d attempts).2 = some k := by
  refine ⟨(fileLoadCalls_ok _).trans (saves_load d attempts), fun opens reads k h => ?_⟩
  exact (saves_load d attempts).symm.trans (fileLoadCalls_some h)

/-- The calls of a save that nothing fails in. -/
def smooth : List Outcome := [.ok, .ok, .ok, .ok, .ok, .ok]

/-- `bl_pin_store_file`, for a directory that is there. -/
def blPinStoreFile : PinStore Disk where
  load := fileLoad
  save d pub65 := let r := trySave pub65 smooth d; (r.1, r.2 = .done true)

theorem save_smooth (d : Disk) (h : pub65.head = 0x04) :
    (trySave pub65 smooth d).2 = .done true := by
  have hclosed : (trySave pub65 [.ok, .ok, .ok, .ok, .ok] d).2 = .closed := by
    simp [trySave, fileSave, writeStep, callStep, Outcome.part, h]
  have hrun : Alone pub65 (fileLoad d) (trySave pub65 [.ok, .ok, .ok, .ok, .ok] d) :=
    alone_run (r := (d, .start)) rfl _
  have hlast : trySave pub65 smooth d =
      fileSave (trySave pub65 [.ok, .ok, .ok, .ok, .ok] d).1 pub65
        (trySave pub65 [.ok, .ok, .ok, .ok, .ok] d).2 .ok := rfl
  rw [hlast]
  generalize trySave pub65 [.ok, .ok, .ok, .ok, .ok] d = r at hclosed hrun
  obtain ⟨d', pc⟩ := r
  obtain rfl : pc = .closed := hclosed
  obtain ⟨-, i, hw⟩ := hrun
  have hnew : d'.new ≠ none := by
    rw [hw.new]
    exact Option.some_ne_none i
  simp [fileSave, hnew]

/-- The file gives back what it has been given. -/
theorem keeps_file : LinkRuns.Keeps blPinStoreFile := by
  intro d k hk
  change fileLoad (trySave k smooth d).1 = some k
  rw [trySave_load, if_pos (save_smooth d hk)]

end Alone

end Iputils.PinFile
