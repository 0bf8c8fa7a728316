import Iputils.PinFile

/-!
# Several savers at once

Processes of one program that register at the same time save their pins over each other:
they open the same new file, and one can rename it while another still writes into it. What
can then be read, and what is there in the end.
-/
set_option autoImplicit false

namespace Iputils.PinRaces
open LinkClient EciesEnvelope PinFile

section Code
variable {ι : Type} [DecidableEq ι]

/-- Processes that save at the same time, each its own key. -/
structure Savers (ι : Type) where
  disk : Disk
  pc : ι → Pc

/-- One call of one process. -/
def Savers.step (keys : ι → List.Vector UInt8 65) (s : Savers ι) (e : ι × Outcome) : Savers ι :=
  let r := fileSave s.disk (keys e.1) (s.pc e.1) e.2
  ⟨r.1, Function.update s.pc e.1 r.2⟩

def Savers.run (keys : ι → List.Vector UInt8 65) (s : Savers ι) (events : List (ι × Outcome)) :
    Savers ι :=
  events.foldl (Savers.step keys) s

/-- Before any of them has begun. -/
def Savers.idle (d : Disk) : Savers ι := ⟨d, fun _ => .start⟩

end Code

section Calls

/-- Everything that one call can do. -/
inductive Did (d : Disk) (k : List.Vector UInt8 65) (o : Outcome) : Pc → Disk → Pc → Prop
  | refuses : Did d k o .start d .refused
  | opens (hhead : k.head = 0x04) : Did d k o .start d.openNew.1 (.opened d.openNew.2)
  | header (i : ℕ) (part : List UInt8) (pc : Pc) (hpart : part.length ≤ 5)
      (hok : o = .ok → part = pinHeader ∧ pc = .headed i) (hpc : pc = .headed i ∨ pc = .failing) :
      Did d k o (.opened i) (d.set i (writeAt (d.nodes i) 0 part)) pc
  | key (i : ℕ) (part : List UInt8) (pc : Pc)
      (hpart : (∀ n, o ≠ .short n) → part = [] ∨ part = k.toList)
      (hok : o = .ok → part = k.toList ∧ pc = .written i) (hpc : pc = .written i ∨ pc = .failing) :
      Did d k o (.headed i) (d.set i (writeAt (d.nodes i) 5 part)) pc
  | syncs (i : ℕ) : Did d k o (.written i) d (.synced i)
  | closes (i : ℕ) : Did d k o (.synced i) d .closed
  | fails (pc : Pc) (ho : o ≠ .ok) (hpc : pc.begun = true) : Did d k o pc d .failing
  | renames (hnew : d.new ≠ none) : Did d k o .closed d.rename (.done true)
  | strands (hnew : d.new = none) : Did d k o .closed d .failing
  | unlinks : Did d k o .failing d.unlinkNew (.done false)
  | leaves : Did d k o .failing d (.done false)
  | rests (pc : Pc) (hpc : pc = .refused ∨ ∃ ok, pc = .done ok) : Did d k o pc d pc

theorem did (d : Disk) (k : List.Vector UInt8 65) (pc : Pc) (o : Outcome) :
    Did d k o pc (fileSave d k pc o).1 (fileSave d k pc o).2 := by
  cases pc with
  | start =>
      unfold fileSave
      dsimp only
      split_ifs with hrefuse
      · exact .refuses
      · exact .opens (not_not.mp (not_or.mp hrefuse).1)
  | refused => exact .rests _ (Or.inl rfl)
  | opened i =>
      refine .header i (o.part pinHeader) _ ?_ ?_ ?_
      · cases o with
        | ok => exact le_rfl
        | short n => exact List.length_take_le' n pinHeader
        | fails => exact Nat.zero_le _
      · rintro rfl
        exact ⟨rfl, rfl⟩
      · exact ite_eq_or_eq _ _ _
  | headed i =>
      refine .key i (o.part k.toList) _ ?_ ?_ ?_
      · intro ho
        cases o with
        | ok => exact Or.inr rfl
        | short n => exact absurd rfl (ho n)
        | fails => exact Or.inl rfl
      · rintro rfl
        exact ⟨rfl, if_pos rfl⟩
      · exact ite_eq_or_eq _ _ _
  | written i =>
      unfold fileSave callStep
      dsimp only
      split_ifs with ho
      · exact .syncs i
      · exact .fails _ ho rfl
  | synced i =>
      unfold fileSave callStep
      dsimp only
      split_ifs with ho
      · exact .closes i
      · exact .fails _ ho rfl
  | closed =>
      unfold fileSave
      dsimp only
      split_ifs with h
      · exact .renames h.2
      · by_cases ho : o = .ok
        · exact .strands (not_not.mp fun hnew => h ⟨ho, hnew⟩)
        · exact .fails _ ho rfl
  | failing =>
      unfold fileSave
      dsimp only
      split_ifs
      · exact .unlinks
      · exact .leaves
  | done ok => exact .rests _ (Or.inr ⟨ok, rfl⟩)

/-- The call has opened the new file. -/
def Opens (d : Disk) (k : List.Vector UInt8 65) (pc : Pc) (d' : Disk) (pc' : Pc) : Prop :=
  pc = .start ∧ k.head = 0x04 ∧ d' = d.openNew.1 ∧ pc' = .opened d.openNew.2

/-- Where the changes of one call stay. -/
structure Effect (d : Disk) (k : List.Vector UInt8 65) (pc : Pc) (d' : Disk) (pc' : Pc) :
    Prop where
  holds : ∀ i, pc'.holds = some i → pc.holds = some i ∨ Opens d k pc d' pc' ∧ i = d.openNew.2
  begins : pc'.begun = true → pc.begun = true ∨ Opens d k pc d' pc'
  begun : pc.begun = true → pc'.begun = true
  new : ∀ i, d'.new = some i → d.new = some i ∨ Opens d k pc d' pc' ∧ i = d.openNew.2
  pin : d'.pin = d.pin ∨ pc.begun = true ∧ ∃ i, d.new = some i ∧ d'.pin = some i
  nodes : ∀ i, pc.holds ≠ some i →
    d'.nodes i = d.nodes i ∨ Opens d k pc d' pc' ∧ i = d.openNew.2

/-- A call that changes nothing on the disk. -/
theorem Effect.still {d : Disk} {k : List.Vector UInt8 65} {pc pc' : Pc}
    (holds : ∀ i, pc'.holds = some i → pc.holds = some i) (begun : pc'.begun = pc.begun) :
    Effect d k pc d pc' where
  holds i hi := Or.inl (holds i hi)
  begins h := Or.inl (begun ▸ h)
  begun h := begun.trans h
  new _ h := Or.inl h
  pin := Or.inl rfl
  nodes _ _ := Or.inl rfl

theorem Effect.writes {d : Disk} {k : List.Vector UInt8 65} {pc pc' next : Pc} {i : ℕ}
    {content : List UInt8} (hpc : pc.holds = some i ∧ pc.begun = true)
    (hnext : next.holds = some i ∧ next.begun = true) (hpc' : pc' = next ∨ pc' = .failing) :
    Effect d k pc (d.set i content) pc' where
  holds j hj := by
    rcases hpc' with rfl | rfl
    · exact Or.inl (hpc.1.trans (hnext.1.symm.trans hj))
    · cases hj
  begins _ := Or.inl hpc.2
  begun _ := by
    rcases hpc' with rfl | rfl
    · exact hnext.2
    · rfl
  new _ h := Or.inl h
  pin := Or.inl rfl
  nodes j hj := by
    refine Or.inl (Function.update_of_ne ?_ _ _)
    rintro rfl
    exact hj hpc.1

theorem Did.effect {d d' : Disk} {k : List.Vector UInt8 65} {o : Outcome} {pc pc' : Pc}
    (h : Did d k o pc d' pc') : Effect d k pc d' pc' := by
  cases h with
  | refuses => exact .still (by simp [Pc.holds]) rfl
  | opens hhead =>
      have hopens : Opens d k .start d.openNew.1 (.opened d.openNew.2) := ⟨rfl, hhead, rfl, rfl⟩
      obtain ⟨hnew, hcontent, hpin, hne, hnodes⟩ := openNew_spec d
      exact
        { holds := fun i hi => Or.inr ⟨hopens, (Option.some.inj hi).symm⟩
          begins := fun _ => Or.inr hopens
          begun := fun _ => rfl
          new := fun i hi => Or.inr ⟨hopens, Option.some.inj (hi.symm.trans hnew)⟩
          pin := Or.inl hpin
          nodes := fun i _ => by
            by_cases hi : i = d.openNew.2
            · exact Or.inr ⟨hopens, hi⟩
            · exact Or.inl (hnodes i hi) }
  | header i part pc' hpart hok hpc => exact .writes ⟨rfl, rfl⟩ ⟨rfl, rfl⟩ hpc
  | key i part pc' hpart hok hpc => exact .writes ⟨rfl, rfl⟩ ⟨rfl, rfl⟩ hpc
  | syncs i => exact .still (fun _ => id) rfl
  | closes i => exact .still (by simp [Pc.holds]) rfl
  | fails pc ho hpc => exact .still (by simp [Pc.holds]) hpc.symm
  | renames hnew =>
      obtain ⟨i, hi⟩ := Option.ne_none_iff_exists'.mp hnew
      exact
        { holds := by simp [Pc.holds]
          begins := fun _ => Or.inl rfl
          begun := fun _ => rfl
          new := by simp [Disk.rename]
          pin := Or.inr ⟨rfl, i, hi, Option.or_eq_some_iff.mpr (Or.inl hi)⟩
          nodes := fun _ _ => Or.inl rfl }
  | strands hnew => exact .still (by simp [Pc.holds]) rfl
  | unlinks =>
      exact
        { holds := by simp [Pc.holds]
          begins := fun _ => Or.inl rfl
          begun := fun _ => rfl
          new := by simp [Disk.unlinkNew]
          pin := Or.inl rfl
          nodes := fun _ _ => Or.inl rfl }
  | leaves => exact .still (by simp [Pc.holds]) rfl
  | rests pc hpc => exact .still (fun _ => id) rfl

/-- No write stops early. -/
def Whole (o : Outcome) : Prop := ∀ n, o ≠ .short n

/-- What one call does to one file. -/
inductive Change (d : Disk) (k : List.Vector UInt8 65) (o : Outcome) (pc : Pc) (d' : Disk)
    (pc' : Pc) (i : ℕ) : Prop
  | same (hpc : o = .ok → pc ≠ .opened i ∧ pc ≠ .headed i) (h : d'.nodes i = d.nodes i)
  | truncated (hpc : pc = .start) (hpc' : pc' = .opened i) (h : d'.nodes i = [])
  | header (part : List UInt8) (hpc : pc = .opened i) (hpart : part.length ≤ 5)
      (hok : o = .ok → part = pinHeader ∧ pc' = .headed i)
      (h : d'.nodes i = writeAt (d.nodes i) 0 part)
  | key (part : List UInt8) (hpc : pc = .headed i)
      (hpart : Whole o → part = [] ∨ part = k.toList) (hok : o = .ok → part = k.toList)
      (h : d'.nodes i = writeAt (d.nodes i) 5 part)

theorem Did.change {d d' : Disk} {k : List.Vector UInt8 65} {o : Outcome} {pc pc' : Pc}
    (h : Did d k o pc d' pc') (i : ℕ) : Change d k o pc d' pc' i := by
  cases h with
  | refuses => exact .same (by simp) rfl
  | opens hhead =>
      obtain ⟨hnew, hcontent, hpin, hne, hnodes⟩ := openNew_spec d
      by_cases hi : i = d.openNew.2
      · obtain rfl := hi
        exact .truncated rfl rfl hcontent
      · exact .same (by simp) (hnodes i hi)
  | header j part pc' hpart hok hpc =>
      by_cases hi : i = j
      · obtain rfl := hi
        exact .header part rfl hpart hok (Function.update_self _ _ _)
      · exact .same (by simp [Ne.symm hi]) (Function.update_of_ne hi _ _)
  | key j part pc' hpart hok hpc =>
      by_cases hi : i = j
      · obtain rfl := hi
        exact .key part rfl hpart (fun ho => (hok ho).1) (Function.update_self _ _ _)
      · exact .same (by simp [Ne.symm hi]) (Function.update_of_ne hi _ _)
  | syncs j => exact .same (by simp) rfl
  | closes j => exact .same (by simp) rfl
  | fails pc ho hpc => exact .same (fun hok => absurd hok ho) rfl
  | renames hnew => exact .same (by simp) rfl
  | strands hnew => exact .same (by simp) rfl
  | unlinks => exact .same (by simp) rfl
  | leaves => exact .same (by simp) rfl
  | rests pc hpc =>
      refine .same (fun _ => ?_) rfl
      rcases hpc with rfl | ⟨ok, rfl⟩ <;> simp

end Calls

section Invariants
variable {ι : Type} [DecidableEq ι] {keys : ι → List.Vector UInt8 65} {d₀ : Disk}

/-- The files that processes have opened, with what is known of all of them (`G`), and the file
of the pin: the old one, which no process has open, or one of theirs. -/
structure Kept (G : Savers ι → ℕ → Prop) (d₀ : Disk) (s : Savers ι) : Prop where
  held : ∀ p i, (s.pc p).holds = some i → G s i
  new : (∃ p, (s.pc p).begun = true) → ∀ i, s.disk.new = some i → G s i
  pin : (s.disk.pin = d₀.pin ∧ ∀ i, d₀.pin = some i → s.disk.nodes i = d₀.nodes i ∧
      ∀ p, (s.pc p).holds ≠ some i) ∨ ∃ i, s.disk.pin = some i ∧ G s i

/-- The processes after `p` has come to `pc`. -/
def Savers.move (s : Savers ι) (p : ι) (d : Disk) (pc : Pc) : Savers ι :=
  ⟨d, Function.update s.pc p pc⟩

@[simp] theorem move_self (s : Savers ι) (p : ι) (d : Disk) (pc : Pc) :
    (s.move p d pc).pc p = pc := Function.update_self _ _ _

theorem move_of_ne (s : Savers ι) {p q : ι} (hq : q ≠ p) (d : Disk) (pc : Pc) :
    (s.move p d pc).pc q = s.pc q := Function.update_of_ne hq _ _

/-- What is known of the opened files is known of one that is opened, and stays. -/
structure Stable (keys : ι → List.Vector UInt8 65) (allowed : Outcome → Prop)
    (G : Savers ι → ℕ → Prop) : Prop where
  opens : ∀ (s : Savers ι) p, s.pc p = .start → (keys p).head = 0x04 →
    G (s.move p s.disk.openNew.1 (.opened s.disk.openNew.2)) s.disk.openNew.2
  stays : ∀ (s : Savers ι) p o d pc i, allowed o → Did s.disk (keys p) o (s.pc p) d pc → G s i →
    G (s.move p d pc) i

theorem kept_step {allowed : Outcome → Prop} {G : Savers ι → ℕ → Prop}
    (hG : Stable keys allowed G) {s : Savers ι} (h : Kept G d₀ s) (p : ι) {o : Outcome}
    (ho : allowed o) {d : Disk} {pc : Pc} (hdid : Did s.disk (keys p) o (s.pc p) d pc) :
    Kept G d₀ (s.move p d pc) := by
  have hstays := fun i => hG.stays s p o d pc i ho hdid
  have heffect := hdid.effect
  have hopens : Opens s.disk (keys p) (s.pc p) d pc → G (s.move p d pc) s.disk.openNew.2 := by
    rintro ⟨hstart, hhead, rfl, rfl⟩
    exact hG.opens s p hstart hhead
  refine ⟨fun q i hi => ?_, fun hbegun i hi => ?_, ?_⟩
  · by_cases hq : q = p
    · rw [hq, move_self] at hi
      rcases heffect.holds i hi with hold | ⟨hnew, rfl⟩
      · exact hstays i (h.held p i hold)
      · exact hopens hnew
    · rw [move_of_ne s hq] at hi
      exact hstays i (h.held q i hi)
  · by_cases hnew : Opens s.disk (keys p) (s.pc p) d pc
    · have hi' : i = s.disk.openNew.2 := by
        obtain ⟨-, -, rfl, -⟩ := hnew
        exact Option.some.inj (hi.symm.trans (openNew_spec s.disk).1)
      rw [hi']
      exact hopens hnew
    · have hold := (heffect.new i hi).resolve_right fun h => hnew h.1
      refine hstays i (h.new ?_ i hold)
      obtain ⟨q, hq⟩ := hbegun
      by_cases hqp : q = p
      · rw [hqp, move_self] at hq
        exact ⟨p, (heffect.begins hq).resolve_right hnew⟩
      · rw [move_of_ne s hqp] at hq
        exact ⟨q, hq⟩
  · rcases heffect.pin with hpin | ⟨hbegun, i, hi, hpin⟩
    · refine h.pin.imp (fun hold => ⟨hpin.trans hold.1, fun i hi => ?_⟩)
        fun ⟨i, hi, hG⟩ => ⟨i, hpin.trans hi, hstays i hG⟩
      obtain ⟨hnodes, hfree⟩ := hold.2 i hi
      have hne : ¬ (Opens s.disk (keys p) (s.pc p) d pc ∧ i = s.disk.openNew.2) := by
        rintro ⟨-, rfl⟩
        exact (openNew_spec s.disk).2.2.2.1 (hold.1.trans hi)
      refine ⟨((heffect.nodes i (hfree p)).resolve_right hne).trans hnodes, fun q hq => ?_⟩
      by_cases hqp : q = p
      · rw [hqp, move_self] at hq
        rcases heffect.holds i hq with hold' | hold'
        · exact hfree p hold'
        · exact hne hold'
      · rw [move_of_ne s hqp] at hq
        exact hfree q hq
    · exact Or.inr ⟨i, hpin, hstays i (h.new ⟨p, hbegun⟩ i hi)⟩

theorem step_eq (keys : ι → List.Vector UInt8 65) (s : Savers ι) (p : ι) (o : Outcome) :
    ∃ d pc, s.step keys (p, o) = s.move p d pc ∧ Did s.disk (keys p) o (s.pc p) d pc :=
  ⟨_, _, rfl, did s.disk (keys p) (s.pc p) o⟩

theorem kept_run {allowed : Outcome → Prop} {G : Savers ι → ℕ → Prop}
    (hG : Stable keys allowed G) {s : Savers ι} (h : Kept G d₀ s) (events : List (ι × Outcome))
    (hallowed : ∀ e ∈ events, allowed e.2) : Kept G d₀ (s.run keys events) := by
  induction events generalizing s with
  | nil => exact h
  | cons e events ih =>
      obtain ⟨p, o⟩ := e
      obtain ⟨d, pc, hstep, hdid⟩ := step_eq keys s p o
      have ho : allowed o := hallowed (p, o) List.mem_cons_self
      rw [Savers.run, List.foldl_cons, hstep]
      exact ih (kept_step hG h p ho hdid) fun e he => hallowed e (List.mem_cons_of_mem _ he)

omit [DecidableEq ι] in
theorem kept_idle (G : Savers ι → ℕ → Prop) (d₀ : Disk) : Kept G d₀ (Savers.idle d₀) where
  held _ _ h := by cases h
  new h := by
    obtain ⟨p, hp⟩ := h
    cases hp
  pin := Or.inl ⟨rfl, fun i _ => ⟨rfl, fun _ h => by cases h⟩⟩

end Invariants

section Keys
variable {ι : Type} [DecidableEq ι] {keys : ι → List.Vector UInt8 65} {d₀ : Disk}

/-- Whoever has opened the file, what stands where the key is comes from one of them. -/
def Owned (keys : ι → List.Vector UInt8 65) (s : Savers ι) (i : ℕ) : Prop :=
  (s.disk.nodes i).drop 5 = [] ∨
    ∃ p, (s.pc p).begun = true ∧ (s.disk.nodes i).drop 5 = (keys p).toList

theorem drop_writeAt_header {content part : List UInt8} (h : part.length ≤ 5) :
    (writeAt content 0 part).drop 5 = content.drop 5 := by
  unfold writeAt
  split_ifs with hnil
  · rfl
  · have hpart : part.drop 5 = [] := List.drop_of_length_le h
    have hall : part.length + (5 - part.length) = 5 := by omega
    rw [List.take_zero, Nat.zero_sub, List.replicate_zero, Nat.zero_add, List.nil_append,
      List.nil_append, List.drop_append, hpart, List.nil_append, List.drop_drop, hall]

theorem length_front (content : List UInt8) :
    (content.take 5 ++ List.replicate (5 - content.length) 0).length = 5 := by
  rw [List.length_append, List.length_take, List.length_replicate]
  omega

theorem writeAt_key (content : List UInt8) (k : List.Vector UInt8 65) :
    writeAt content 5 k.toList =
      content.take 5 ++ List.replicate (5 - content.length) 0 ++
        (k.toList ++ (content.drop 5).drop 65) := by
  rw [writeAt, if_neg (toList_ne_nil k), k.toList_length, List.drop_drop, List.append_assoc]

theorem drop_writeAt_key (content : List UInt8) (k : List.Vector UInt8 65) :
    (writeAt content 5 k.toList).drop 5 = k.toList ++ (content.drop 5).drop 65 := by
  rw [writeAt_key]
  exact List.drop_left' (length_front content)

omit [DecidableEq ι] in
theorem Owned.key {s : Savers ι} {i : ℕ} (h : Owned keys s i) (p : ι) :
    (writeAt (s.disk.nodes i) 5 (keys p).toList).drop 5 = (keys p).toList := by
  have hrest : ((s.disk.nodes i).drop 5).drop 65 = [] := by
    rcases h with h | ⟨q, -, h⟩
    · rw [h]
      rfl
    · rw [h]
      exact List.drop_of_length_le (keys q).toList_length.le
  rw [drop_writeAt_key, hrest, List.append_nil]

omit [DecidableEq ι] in
theorem Owned.congr {s s' : Savers ι} {i : ℕ} (h : Owned keys s i)
    (hbegun : ∀ p, (s.pc p).begun = true → (s'.pc p).begun = true)
    (hnodes : (s'.disk.nodes i).drop 5 = (s.disk.nodes i).drop 5) : Owned keys s' i := by
  unfold Owned
  rw [hnodes]
  exact h.imp_right fun ⟨p, hp, hkey⟩ => ⟨p, hbegun p hp, hkey⟩

theorem begun_move {s : Savers ι} {p : ι} {o : Outcome} {d : Disk} {pc : Pc}
    (hdid : Did s.disk (keys p) o (s.pc p) d pc) (q : ι) (hq : (s.pc q).begun = true) :
    ((s.move p d pc).pc q).begun = true := by
  by_cases hqp : q = p
  · rw [hqp, move_self]
    rw [hqp] at hq
    exact hdid.effect.begun hq
  · rw [move_of_ne s hqp]
    exact hq

theorem stable_owned (keys : ι → List.Vector UInt8 65) :
    Stable keys Whole (Owned keys) where
  opens s p _ _ := Or.inl (by rw [Savers.move, (openNew_spec s.disk).2.1]; rfl)
  stays s p o d pc i ho hdid h := by
    have hbegun := begun_move hdid
    cases hdid.change i with
    | same hpc hnodes => exact h.congr hbegun (congrArg (List.drop 5) hnodes)
    | truncated hpc hpc' hnodes => exact Or.inl (congrArg (List.drop 5) hnodes)
    | header part hpc hpart hok hnodes =>
        exact h.congr hbegun ((congrArg (List.drop 5) hnodes).trans (drop_writeAt_header hpart))
    | key part hpc hpart hok hnodes =>
        rcases hpart ho with rfl | rfl
        · exact h.congr hbegun (congrArg (List.drop 5) hnodes)
        · exact Or.inr ⟨p, hbegun p (by rw [hpc]; rfl),
            (congrArg (List.drop 5) hnodes).trans (h.key p)⟩

/-- Whatever the order of their calls, whichever of them fail and wherever processes stop: as
long as no write stops early, a pin that is read is the old one or the key of one of the
processes. -/
theorem loads_whole (d₀ : Disk) (events : List (ι × Outcome)) (hwhole : ∀ e ∈ events, Whole e.2)
    {k : List.Vector UInt8 65} (hload : fileLoad ((Savers.idle d₀).run keys events).disk = some k) :
    fileLoad d₀ = some k ∨
      ∃ p, (((Savers.idle d₀).run keys events).pc p).begun = true ∧ keys p = k := by
  have hkept := kept_run (stable_owned keys) (kept_idle (Owned keys) d₀) events hwhole
  generalize (Savers.idle d₀).run keys events = s at hkept hload
  rcases hkept.pin with ⟨hpin, hnodes⟩ | ⟨i, hpin, howned⟩
  · refine Or.inl ?_
    rw [← hload]
    exact (fileLoad_congr hpin fun i hi => (hnodes i hi).1).symm
  · obtain ⟨j, hj, hcontent, hhead⟩ := fileLoad_some.mp hload
    obtain rfl : i = j := Option.some.inj (hpin.symm.trans hj)
    have hkey : ((s.disk.nodes i).take 70).drop 5 = k.toList := by
      rw [hcontent]
      rfl
    rw [List.drop_take] at hkey
    rcases howned with hnil | ⟨p, hp, hown⟩
    · rw [hnil] at hkey
      exact absurd hkey.symm (toList_ne_nil k)
    · rw [hown, List.take_of_length_le (keys p).toList_length.le] at hkey
      exact Or.inr ⟨p, hp, List.Vector.toList_injective hkey⟩

end Keys

section Endings
variable {ι : Type} [DecidableEq ι] {keys : ι → List.Vector UInt8 65} {d₀ : Disk}

/-- What is missing in an opened file will still be written. -/
structure Pending (keys : ι → List.Vector UInt8 65) (s : Savers ι) (i : ℕ) : Prop where
  owned : Owned keys s i
  header : (s.disk.nodes i).take 5 ≠ pinHeader → ∃ p, s.pc p = .opened i
  key : (s.disk.nodes i).drop 5 = [] → ∃ p, s.pc p = .opened i ∨ s.pc p = .headed i

theorem take_writeAt_header (content : List UInt8) :
    (writeAt content 0 pinHeader).take 5 = pinHeader := by
  rw [writeAt, if_neg (by decide), List.take_zero, Nat.zero_sub, List.replicate_zero,
    List.nil_append, List.nil_append]
  exact List.take_left' rfl

theorem take_writeAt_key {content : List UInt8} (h : content.take 5 = pinHeader)
    (k : List.Vector UInt8 65) : (writeAt content 5 k.toList).take 5 = pinHeader := by
  have hlen : content.length ≥ 5 := by
    have htake := congrArg List.length h
    rw [List.length_take] at htake
    change min 5 content.length = 5 at htake
    omega
  rw [writeAt_key, List.take_left' (length_front content), h, Nat.sub_eq_zero_of_le hlen]
  rfl

theorem stable_pending (keys : ι → List.Vector UInt8 65) :
    Stable keys (fun o => o = .ok) (Pending keys) where
  opens s p hstart hhead :=
    { owned := (stable_owned keys).opens s p hstart hhead
      header := fun _ => ⟨p, move_self _ _ _ _⟩
      key := fun _ => ⟨p, Or.inl (move_self _ _ _ _)⟩ }
  stays s p o d pc i ho hdid h := by
    have howned := (stable_owned keys).stays s p o d pc i (by rw [ho]; simp [Whole]) hdid h.owned
    have hother : ∀ q, q ≠ p → (s.move p d pc).pc q = s.pc q := fun q hq => move_of_ne s hq d pc
    cases hdid.change i with
    | same hpc hnodes =>
        have hnodes' : (s.move p d pc).disk.nodes i = s.disk.nodes i := hnodes
        refine ⟨howned, fun hheader => ?_, fun hkey => ?_⟩
        · rw [hnodes'] at hheader
          obtain ⟨q, hq⟩ := h.header hheader
          have hqp : q ≠ p := by
            rintro rfl
            exact (hpc ho).1 hq
          exact ⟨q, (hother q hqp).trans hq⟩
        · rw [hnodes'] at hkey
          obtain ⟨q, hq⟩ := h.key hkey
          have hqp : q ≠ p := by
            rintro rfl
            exact hq.elim (hpc ho).1 (hpc ho).2
          exact ⟨q, by rw [hother q hqp]; exact hq⟩
    | truncated hpc hpc' hnodes =>
        exact ⟨howned, fun _ => ⟨p, (move_self _ _ _ _).trans hpc'⟩,
          fun _ => ⟨p, Or.inl ((move_self _ _ _ _).trans hpc')⟩⟩
    | header part hpc hpart hok hnodes =>
        obtain ⟨rfl, hpc'⟩ := hok ho
        have hnodes' : (s.move p d pc).disk.nodes i = writeAt (s.disk.nodes i) 0 pinHeader := hnodes
        refine ⟨howned, fun hheader => ?_, fun hkey => ?_⟩
        · rw [hnodes', take_writeAt_header] at hheader
          exact absurd rfl hheader
        · rw [hnodes', drop_writeAt_header hpart] at hkey
          obtain ⟨q, hq⟩ := h.key hkey
          by_cases hqp : q = p
          · exact ⟨p, Or.inr ((move_self _ _ _ _).trans hpc')⟩
          · exact ⟨q, by rw [hother q hqp]; exact hq⟩
    | key part hpc hpart hok hnodes =>
        obtain rfl := hok ho
        have hnodes' : (s.move p d pc).disk.nodes i =
            writeAt (s.disk.nodes i) 5 (keys p).toList := hnodes
        refine ⟨howned, fun hheader => ?_, fun hkey => ?_⟩
        · have hold : (s.disk.nodes i).take 5 ≠ pinHeader := fun hold =>
            hheader (by rw [hnodes']; exact take_writeAt_key hold _)
          obtain ⟨q, hq⟩ := h.header hold
          have hqp : q ≠ p := by
            rintro rfl
            rw [hpc] at hq
            cases hq
          exact ⟨q, (hother q hqp).trans hq⟩
        · rw [hnodes', h.owned.key p] at hkey
          exact absurd hkey (toList_ne_nil _)

/-- The new file has become the pin. -/
def Renamed (d : Disk) (pc : Pc) (d' : Disk) : Prop :=
  pc.begun = true ∧ ∃ i, d.new = some i ∧ d'.pin = some i

theorem renamed {d : Disk} (h : d.new ≠ none) : Renamed d .closed d.rename := by
  obtain ⟨i, hi⟩ := Option.ne_none_iff_exists'.mp h
  exact ⟨rfl, i, hi, Option.or_eq_some_iff.mpr (Or.inl hi)⟩

theorem Did.new_none {d d' : Disk} {k : List.Vector UInt8 65} {o : Outcome} {pc pc' : Pc}
    (h : Did d k o pc d' pc') (hold : d.new ≠ none) (hnew : d'.new = none) :
    pc = .failing ∨ Renamed d pc d' := by
  cases h with
  | refuses => exact absurd hnew hold
  | opens hhead =>
      rw [(openNew_spec d).1] at hnew
      cases hnew
  | header i part pc' hpart hok hpc => exact absurd hnew hold
  | key i part pc' hpart hok hpc => exact absurd hnew hold
  | syncs i => exact absurd hnew hold
  | closes i => exact absurd hnew hold
  | fails pc ho hpc => exact absurd hnew hold
  | renames hne => exact Or.inr (renamed hne)
  | strands hne => exact absurd hne hold
  | unlinks => exact Or.inl rfl
  | leaves => exact absurd hnew hold
  | rests pc hpc => exact absurd hnew hold

theorem Did.ended {d d' : Disk} {k : List.Vector UInt8 65} {pc pc' : Pc}
    (h : Did d k .ok pc d' pc') (hends : pc'.ended) :
    pc.ended ∨ pc.begun = true ∧ d.new = none ∨ Renamed d pc d' := by
  cases h with
  | refuses => simp [Pc.ended] at hends
  | opens hhead => simp [Pc.ended] at hends
  | header i part pc' hpart hok hpc => simp [Pc.ended, (hok rfl).2] at hends
  | key i part pc' hpart hok hpc => simp [Pc.ended, (hok rfl).2] at hends
  | syncs i => simp [Pc.ended] at hends
  | closes i => simp [Pc.ended] at hends
  | fails pc ho hpc => exact absurd rfl ho
  | renames hnew => exact Or.inr (Or.inr (renamed hnew))
  | strands hnew => exact Or.inr (Or.inl ⟨rfl, hnew⟩)
  | unlinks => exact Or.inl (Or.inl rfl)
  | leaves => exact Or.inl (Or.inl rfl)
  | rests pc hpc => exact Or.inl hends

/-- The pin is a file that a process has written. -/
def Placed (G : Savers ι → ℕ → Prop) (s : Savers ι) : Prop := ∃ i, s.disk.pin = some i ∧ G s i

/-- If nothing fails, a process that has ended leaves such a pin. -/
structure Ended (keys : ι → List.Vector UInt8 65) (G : Savers ι → ℕ → Prop) (s : Savers ι) :
    Prop where
  gone : (∃ p, (s.pc p).begun = true) → s.disk.new = none → Placed G s
  ended : ∀ p, (s.pc p).ended → Placed G s
  head : ∀ p, (s.pc p).begun = true → (keys p).head = 0x04

theorem ended_step {G : Savers ι → ℕ → Prop} (hG : Stable keys (fun o => o = .ok) G)
    {s : Savers ι} (hkept : Kept G d₀ s) (h : Ended keys G s) (p : ι) {d : Disk} {pc : Pc}
    (hdid : Did s.disk (keys p) .ok (s.pc p) d pc) : Ended keys G (s.move p d pc) := by
  have hstays := fun i => hG.stays s p .ok d pc i rfl hdid
  have heffect := hdid.effect
  have hrenamed : Renamed s.disk (s.pc p) d → Placed G (s.move p d pc) := by
    rintro ⟨hbegun, i, hi, hpin⟩
    exact ⟨i, hpin, hstays i (hkept.new ⟨p, hbegun⟩ i hi)⟩
  have hplaced : Placed G s → Placed G (s.move p d pc) := by
    rintro ⟨i, hpin, hi⟩
    rcases heffect.pin with hsame | hnew
    · exact ⟨i, hsame.trans hpin, hstays i hi⟩
    · exact hrenamed hnew
  refine ⟨fun ⟨q, hq⟩ hnone => ?_, fun q hq => ?_, fun q hq => ?_⟩
  · have hbegun : ∃ q, (s.pc q).begun = true := by
      by_cases hqp : q = p
      · rw [hqp, move_self] at hq
        refine ⟨p, (heffect.begins hq).resolve_right ?_⟩
        rintro ⟨-, -, rfl, -⟩
        rw [Savers.move, (openNew_spec s.disk).1] at hnone
        cases hnone
      · rw [move_of_ne s hqp] at hq
        exact ⟨q, hq⟩
    by_cases hnew : s.disk.new = none
    · exact hplaced (h.gone hbegun hnew)
    · rcases hdid.new_none hnew hnone with hfailing | hrename
      · exact hplaced (h.ended p (Or.inl hfailing))
      · exact hrenamed hrename
  · by_cases hqp : q = p
    · rw [hqp, move_self] at hq
      rcases hdid.ended hq with hended | ⟨hbegun, hnew⟩ | hrename
      · exact hplaced (h.ended p hended)
      · exact hplaced (h.gone ⟨p, hbegun⟩ hnew)
      · exact hrenamed hrename
    · rw [move_of_ne s hqp] at hq
      exact hplaced (h.ended q hq)
  · by_cases hqp : q = p
    · rw [hqp, move_self] at hq
      rw [hqp]
      exact (heffect.begins hq).elim (h.head p) fun hopens => hopens.2.1
    · rw [move_of_ne s hqp] at hq
      exact h.head q hq

theorem ended_run {G : Savers ι → ℕ → Prop} (hG : Stable keys (fun o => o = .ok) G)
    {s : Savers ι} (hkept : Kept G d₀ s) (h : Ended keys G s) (events : List (ι × Outcome))
    (hok : ∀ e ∈ events, e.2 = .ok) : Ended keys G (s.run keys events) := by
  induction events generalizing s with
  | nil => exact h
  | cons e events ih =>
      obtain ⟨p, o⟩ := e
      obtain rfl : o = .ok := hok (p, o) List.mem_cons_self
      obtain ⟨d, pc, hstep, hdid⟩ := step_eq keys s p .ok
      rw [Savers.run, List.foldl_cons, hstep]
      exact ih (kept_step hG hkept p rfl hdid) (ended_step hG hkept h p hdid)
        fun e he => hok e (List.mem_cons_of_mem _ he)

omit [DecidableEq ι] in
theorem ended_idle (G : Savers ι → ℕ → Prop) (d₀ : Disk) : Ended keys G (Savers.idle d₀) where
  gone h := by
    obtain ⟨p, hp⟩ := h
    cases hp
  ended p hp := by
    rcases hp with hp | ⟨ok, hp⟩ <;> cases hp
  head p hp := by cases hp

omit [DecidableEq ι] in
/-- A file in which nothing is missing has a key that loads. -/
theorem Pending.loads {s : Savers ι} {i : ℕ} (h : Pending keys s i)
    (hhead : ∀ p, (s.pc p).begun = true → (keys p).head = 0x04) (hpin : s.disk.pin = some i) :
    (∃ p, s.pc p = .opened i ∨ s.pc p = .headed i) ∨
      ∃ p, (s.pc p).begun = true ∧ fileLoad s.disk = some (keys p) := by
  by_cases hheader : (s.disk.nodes i).take 5 = pinHeader
  · rcases h.owned with hnil | ⟨p, hp, hkey⟩
    · exact Or.inl (h.key hnil)
    · refine Or.inr ⟨p, hp, fileLoad_some.mpr ⟨i, hpin, ?_, hhead p hp⟩⟩
      have hcontent : s.disk.nodes i = pinBytes (keys p) := by
        rw [pinBytes, ← hheader, ← hkey, List.take_append_drop]
      rw [hcontent]
      exact List.take_of_length_le (pinBytes_length _).le
  · obtain ⟨p, hp⟩ := h.header hheader
    exact Or.inl ⟨p, Or.inl hp⟩

theorem running {pc : Pc} {i : ℕ} (h : pc = .opened i ∨ pc = .headed i) :
    pc.begun = true ∧ ¬ pc.ended := by
  rcases h with rfl | rfl
  · exact ⟨rfl, by simp [Pc.ended]⟩
  · exact ⟨rfl, by simp [Pc.ended]⟩

/-- If no call fails: a pin that was there cannot be read only while a process has its file
open and has not written everything; and when all processes have ended, the pin is the key of
one of them, even if that one has reported a failure. -/
theorem settled (d₀ : Disk) (events : List (ι × Outcome)) (hok : ∀ e ∈ events, e.2 = .ok) :
    let s := (Savers.idle d₀).run keys events
    (fileLoad s.disk = none → fileLoad d₀ = none ∨
      ∃ i, s.disk.pin = some i ∧ ∃ p, s.pc p = .opened i ∨ s.pc p = .headed i) ∧
    ((∃ p, (s.pc p).begun = true) → (∀ p, (s.pc p).begun = true → (s.pc p).ended) →
      ∃ p, (s.pc p).begun = true ∧ fileLoad s.disk = some (keys p)) := by
  have hkept := kept_run (stable_pending keys) (kept_idle (Pending keys) d₀) events hok
  have hended := ended_run (stable_pending keys) (kept_idle (Pending keys) d₀)
    (ended_idle (Pending keys) d₀) events hok
  intro s
  refine ⟨fun hnone => ?_, fun ⟨p, hp⟩ hall => ?_⟩
  · rcases hkept.pin with ⟨hpin, hnodes⟩ | ⟨i, hpin, hpending⟩
    · refine Or.inl ?_
      rw [← hnone]
      exact (fileLoad_congr hpin fun i hi => (hnodes i hi).1).symm
    · refine Or.inr ⟨i, hpin, ?_⟩
      rcases hpending.loads hended.head hpin with hopen | ⟨q, -, hload⟩
      · exact hopen
      · rw [hnone] at hload
        cases hload
  · obtain ⟨i, hpin, hpending⟩ := hended.ended p (hall p hp)
    rcases hpending.loads hended.head hpin with ⟨q, hq⟩ | hload
    · obtain ⟨hbegun, hrunning⟩ := running hq
      exact absurd (hall q hbegun) hrunning
    · exact hload

end Endings

section Samples

theorem apart_free (pin : Option ℕ) (i : ℕ) : pin = some i → (none : Option ℕ) ≠ some i :=
  fun _ => apart_none

theorem old_free (i : ℕ) (h : (none : Option ℕ) = some i ∨ none = some i) : i < 0 := by
  rcases h with h | h <;> cases h

/-- Nothing has been saved yet. -/
def emptyDisk : Disk := ⟨fun _ => [], 0, none, none, apart_free none, old_free⟩

/-- The keys of two processes. -/
def twoKeys (p : Bool) : List.Vector UInt8 65 := fixed 65 [0x04, if p then 1 else 2]

/-- The second process opens the file that the first is about to rename. -/
def crossed : List (Bool × Outcome) :=
  List.replicate 5 (true, .ok) ++ [(false, .ok), (true, .ok)]

/-- Then nothing can be read until it has written its own key there. -/
example : fileLoad ((Savers.idle emptyDisk).run twoKeys crossed).disk = none := rfl

/-- Its key is the pin in the end, although its own rename fails. -/
def both : List (Bool × Outcome) := crossed ++ List.replicate 6 (false, .ok)

example : ((Savers.idle emptyDisk).run twoKeys both).pc false = .done false := rfl

theorem loads_whole_two : fileLoad emptyDisk = some (twoKeys false) ∨
    ∃ p, (((Savers.idle emptyDisk).run twoKeys both).pc p).begun = true ∧
      twoKeys p = twoKeys false := by
  have hload : fileLoad ((Savers.idle emptyDisk).run twoKeys both).disk = some (twoKeys false) := rfl
  have hok : ∀ e ∈ both, e.2 = .ok := by decide
  refine loads_whole emptyDisk both (fun e he => ?_) hload
  rw [hok e he]
  simp [Whole]

theorem settled_two :
    let s := (Savers.idle emptyDisk).run twoKeys crossed
    (fileLoad s.disk = none → fileLoad emptyDisk = none ∨
      ∃ i, s.disk.pin = some i ∧ ∃ p, s.pc p = .opened i ∨ s.pc p = .headed i) ∧
    ((∃ p, (s.pc p).begun = true) → (∀ p, (s.pc p).begun = true → (s.pc p).ended) →
      ∃ p, (s.pc p).begun = true ∧ fileLoad s.disk = some (twoKeys p)) :=
  settled emptyDisk crossed (by decide)

end Samples

end Iputils.PinRaces
