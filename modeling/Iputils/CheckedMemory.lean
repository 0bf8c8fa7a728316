import Mathlib.Data.List.Basic
import Mathlib.Logic.Relation

/-!
# Memory objects with bounds

A read or a write that leaves its object is a fault, and so is a loop that runs out of
rounds. A computation decides a proposition if it succeeds, with a given value, exactly
when the proposition holds; what it decides is collected along its steps.
-/
set_option autoImplicit false

namespace Iputils.CheckedMemory
variable {α β : Type}

inductive Fault
  | read (off : ℕ)
  | write (size : ℕ)
  | endless
deriving Repr, DecidableEq

/-- Read one element of an object of `n` elements. -/
def load (mem : ℕ → α) (n i : ℕ) : Except Fault α :=
  if i < n then .ok (mem i) else .error (.read i)

/-- Read `k` elements in a row. -/
def loadBlock (mem : ℕ → α) (n off k : ℕ) : Except Fault (List α) :=
  if off + k ≤ n then .ok ((List.range k).map fun i => mem (off + i)) else .error (.read n)

/-- Write `k` elements from the start of an object of `n` elements. -/
def storeBlock (n k : ℕ) : Except Fault Unit := if k ≤ n then .ok () else .error (.write k)

/-- The computation succeeds if and only if `p` holds, and then its value is `v`. -/
structure Decides (x : Except Fault α) (p : Prop) (v : α) : Prop where
  ok : p → x = .ok v
  fault : ¬ p → ∃ e, x = .error e ∧ e ≠ .endless

namespace Decides
variable {x : Except Fault α} {p q : Prop} {v w : α}

theorem intro_pure (h : p) (v : α) : Decides (pure v) p v := ⟨fun _ => rfl, fun h' => absurd h h'⟩

/-- The rule for sequences: the second step decides what is left of the proposition. -/
theorem bind {f : α → Except Fault β} {w : β} (hx : Decides x p v) (hqp : q → p)
    (hf : p → Decides (f v) q w) : Decides (x >>= f) q w where
  ok h := by
    rw [hx.ok (hqp h)]
    exact (hf (hqp h)).ok h
  fault h := by
    by_cases hp : p
    · rw [hx.ok hp]
      exact (hf hp).fault h
    · obtain ⟨e, he, hne⟩ := hx.fault hp
      exact ⟨e, by rw [he]; rfl, hne⟩

theorem congr (hx : Decides x p v) (hpq : p ↔ q) (hv : q → v = w) : Decides x q w where
  ok h := by rw [hx.ok (hpq.mpr h), hv h]
  fault h := hx.fault fun hp => h (hpq.mp hp)

theorem succeeds_iff (hx : Decides x p v) : (∃ w, x = .ok w) ↔ p := by
  refine ⟨?_, fun h => ⟨v, hx.ok h⟩⟩
  rintro ⟨w, hw⟩
  by_contra hp
  obtain ⟨e, he, -⟩ := hx.fault hp
  rw [hw] at he
  cases he

theorem eq_of_ok (hx : Decides x p v) (h : x = .ok w) : w = v := by
  have hok := hx.ok (hx.succeeds_iff.mp ⟨w, h⟩)
  exact Except.ok.inj (h.symm.trans hok)

theorem ne_endless (hx : Decides x p v) : x ≠ .error .endless := by
  intro h
  by_cases hp : p
  · rw [hx.ok hp] at h
    cases h
  · obtain ⟨e, he, hne⟩ := hx.fault hp
    rw [h] at he
    exact hne (Except.error.inj he).symm

end Decides

theorem load_decides (mem : ℕ → α) (n i : ℕ) : Decides (load mem n i) (i < n) (mem i) where
  ok h := if_pos h
  fault h := ⟨.read i, if_neg h, by simp⟩

theorem loadBlock_decides (mem : ℕ → α) (n off k : ℕ) :
    Decides (loadBlock mem n off k) (off + k ≤ n) ((List.range k).map fun i => mem (off + i)) where
  ok h := if_pos h
  fault h := ⟨.read n, if_neg h, by simp⟩

theorem storeBlock_decides (n k : ℕ) : Decides (storeBlock n k) (k ≤ n) () where
  ok h := if_pos h
  fault h := ⟨.write k, if_neg h, by simp⟩

/-- What holds all along a run holds at its start and along every run from the next state. -/
theorem forall_reflTransGen_iff {r : α → α → Prop} {a : α} {p : α → Prop} :
    (∀ b, Relation.ReflTransGen r a b → p b) ↔
      p a ∧ ∀ c, r a c → ∀ b, Relation.ReflTransGen r c b → p b := by
  constructor
  · intro h
    exact ⟨h a .refl, fun c hc b hb => h b (.head hc hb)⟩
  · rintro ⟨ha, h⟩ b hb
    rcases hb.cases_head with rfl | ⟨c, hc, hcb⟩
    · exact ha
    · exact h c hc b hcb

end Iputils.CheckedMemory
