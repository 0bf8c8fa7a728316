import Iputils.PingOutput

/-!
# The cache of formatted addresses

`pr_addr` and `pr_raw_addr` share one buffer with the text of the last address. The text
is kept for an address whichever of the two asks for it. Along a sequence of calls each
returns its own text exactly if no address with a name is asked for in both ways in a row.
-/
set_option autoImplicit false

namespace Iputils.AddressCache
open PingOutput

section Code

/-- An address is not empty. -/
structure SockAddr where
  bytes : List UInt8
  nonempty : bytes ≠ []

/-- The two functions. -/
inductive Kind
  | prAddr | prRawAddr
deriving Repr, DecidableEq

/-- The argument `resolve_name`. -/
def Kind.resolveName : Kind → Bool
  | .prAddr => true
  | .prRawAddr => false

/-- What stays the same: the fields of `rts`, and `getnameinfo`, which is not part of the
sources. It gives an address in numbers and, if it is asked to, a name. -/
structure Surroundings where
  exiting : Bool := false
  optForceLookup : Bool := false
  optNumeric : Bool := false
  getnameinfo : List UInt8 → Host

/-- The static variables. `last_salen` is the length of `lastSa`. -/
structure Static where
  buffer : List Char := []
  lastSa : List UInt8 := []
deriving Repr, DecidableEq

variable (env : Surroundings)

def looksUp (kind : Kind) : Bool :=
  ! env.exiting && kind.resolveName && (env.optForceLookup || ! env.optNumeric)

/-- The buffers `name` and `address`. -/
def hostOf (sa : List UInt8) (kind : Kind) : Host :=
  if looksUp env kind then env.getnameinfo sa
  else { env.getnameinfo sa with name := [], nameShort := Nat.succ_pos _ }

/-- `_pr_addr`; `buffer` has room for 4096 characters. -/
def prAddrBuffer (s : Static) (sa : SockAddr) (kind : Kind) : Static × List Char :=
  if sa.bytes = s.lastSa then (s, s.buffer)
  else
    let buffer := (hostOf env sa.bytes kind).text.take 4095
    (⟨buffer, sa.bytes⟩, buffer)

structure Call where
  sa : SockAddr
  kind : Kind

/-- The results of a sequence of calls. -/
def results : Static → List Call → List (List Char)
  | _, [] => []
  | s, c :: cs =>
      let r := prAddrBuffer env s c.sa c.kind
      r.2 :: results r.1 cs

end Code

section Purpose
variable (env : Surroundings)

/-- The name of an address is looked up, and there is one. -/
def Named (sa : List UInt8) : Prop :=
  env.exiting = false ∧ (env.optForceLookup = true ∨ env.optNumeric = false) ∧
    (env.getnameinfo sa).name ≠ [] ∧ (env.getnameinfo sa).name ≠ (env.getnameinfo sa).address

instance (sa : List UInt8) : Decidable (Named env sa) := inferInstanceAs (Decidable (_ ∧ _))

/-- The text that a call stands for: the address, behind its name if that is asked for. -/
def textOf (c : Call) : List Char :=
  let h := env.getnameinfo c.sa.bytes
  if c.kind = .prAddr ∧ Named env c.sa.bytes then h.name ++ " (".toList ++ h.address ++ [')']
  else h.address

/-- Two calls in a row do not ask for one address in different ways, unless it has no name. -/
def Unmixed (c c' : Call) : Prop :=
  c.sa.bytes = c'.sa.bytes → c.kind = c'.kind ∨ ¬ Named env c.sa.bytes

variable {env : Surroundings} {c c' : Call} {cs : List Call}

theorem looksUp_iff (kind : Kind) :
    looksUp env kind = true ↔ env.exiting = false ∧ kind = .prAddr ∧
      (env.optForceLookup = true ∨ env.optNumeric = false) := by
  have hkind : kind.resolveName = true ↔ kind = .prAddr := by
    cases kind <;> decide
  unfold looksUp
  rw [Bool.and_eq_true, Bool.and_eq_true, Bool.or_eq_true, Bool.not_eq_true', Bool.not_eq_true',
    hkind, and_assoc]

/-- A call that is not answered from the buffer gives its text. -/
theorem text_hostOf (c : Call) : (hostOf env c.sa.bytes c.kind).text = textOf env c := by
  unfold hostOf textOf
  dsimp only
  by_cases hlooks : looksUp env c.kind = true
  · obtain ⟨hexiting, hkind, hlookup⟩ := (looksUp_iff c.kind).mp hlooks
    have hnamed : ((env.getnameinfo c.sa.bytes).name ≠ [] ∧
        (env.getnameinfo c.sa.bytes).name ≠ (env.getnameinfo c.sa.bytes).address) ↔
        c.kind = .prAddr ∧ Named env c.sa.bytes :=
      ⟨fun h => ⟨hkind, hexiting, hlookup, h⟩, fun h => h.2.2.2⟩
    rw [if_pos hlooks, Host.text, if_congr hnamed rfl rfl]
  · have hraw : ¬ (c.kind = .prAddr ∧ Named env c.sa.bytes) := fun h =>
      hlooks ((looksUp_iff c.kind).mpr ⟨h.2.1, h.1, h.2.2.1⟩)
    rw [if_neg hlooks, if_neg hraw, Host.text, if_neg fun h => h.1 rfl]

/-- The two functions differ on the addresses that have a name, and on no others. -/
theorem textOf_eq_iff (h : c.sa.bytes = c'.sa.bytes) :
    textOf env c = textOf env c' ↔ c.kind = c'.kind ∨ ¬ Named env c.sa.bytes := by
  have hlonger : (env.getnameinfo c'.sa.bytes).name ++ " (".toList ++
      (env.getnameinfo c'.sa.bytes).address ++ [')'] ≠ (env.getnameinfo c'.sa.bytes).address := by
    intro heq
    have hlen := congrArg List.length heq
    rw [List.length_append, List.length_append, List.length_append, List.length_singleton] at hlen
    omega
  unfold textOf
  dsimp only
  rw [h]
  by_cases hnamed : Named env c'.sa.bytes
  · have hmixed : ¬ (Kind.prAddr = .prRawAddr ∨ ¬ Named env c'.sa.bytes) := fun hall =>
      hall.elim (by decide) (not_not.mpr hnamed)
    rw [if_congr (and_iff_left hnamed) rfl rfl, if_congr (and_iff_left hnamed) rfl rfl]
    cases hkind : c.kind <;> cases hkind' : c'.kind
    · exact iff_of_true rfl (Or.inl rfl)
    · exact iff_of_false hlonger hmixed
    · exact iff_of_false hlonger.symm fun hall => hmixed (hall.imp Eq.symm id)
    · exact iff_of_true rfl (Or.inl rfl)
  · rw [if_neg fun hall => hnamed hall.2, if_neg fun hall => hnamed hall.2]
    exact iff_of_true rfl (Or.inr hnamed)

theorem textOf_short (c : Call) : (textOf env c).take 4095 = textOf env c := by
  rw [← text_hostOf]
  exact List.take_of_length_le ((Host.length_text _).trans (by decide))

/-- The static variables behind a call that gave its own text. -/
def after (env : Surroundings) : Option Call → Static
  | none => {}
  | some c => ⟨textOf env c, c.sa.bytes⟩

theorem prAddrBuffer_miss {s : Static} (h : c.sa.bytes ≠ s.lastSa) :
    prAddrBuffer env s c.sa c.kind = (after env (some c), textOf env c) := by
  unfold prAddrBuffer
  rw [if_neg h, text_hostOf, textOf_short]
  rfl

/-- Behind a call with its own text the calls give theirs if and only if no two in a row are
mixed. -/
theorem results_after (cs : List Call) (last : Option Call) :
    results env (after env last) cs = cs.map (textOf env) ↔
      List.IsChain (Unmixed env) (last.toList ++ cs) := by
  induction cs generalizing last with
  | nil => cases last <;> simp [results]
  | cons c cs ih =>
      rw [results, List.map_cons, List.cons.injEq]
      cases last with
      | none =>
          rw [prAddrBuffer_miss (s := after env none) c.sa.nonempty, ih (some c)]
          exact and_iff_right rfl
      | some l =>
          change _ ↔ List.IsChain (Unmixed env) (l :: c :: cs)
          rw [List.isChain_cons_cons]
          by_cases hsame : c.sa.bytes = l.sa.bytes
          · have hhit : prAddrBuffer env (after env (some l)) c.sa c.kind =
                (after env (some l), textOf env l) := if_pos hsame
            have hunmixed : Unmixed env l c ↔ textOf env l = textOf env c := by
              rw [textOf_eq_iff hsame.symm]
              exact ⟨fun h => h hsame.symm, fun h _ => h⟩
            rw [hhit, hunmixed]
            refine and_congr_right fun (htext : textOf env l = textOf env c) => ?_
            have hafter : after env (some l) = after env (some c) := by
              rw [after, after, htext, hsame]
            rw [hafter, ih (some c)]
            rfl
          · rw [prAddrBuffer_miss hsame, ih (some c)]
            exact and_congr (iff_of_true rfl fun h => absurd h.symm hsame) Iff.rfl

/-- The cache changes no result exactly if no address with a name is asked for in both ways in a
row. -/
theorem results_right_iff (env : Surroundings) (cs : List Call) :
    results env {} cs = cs.map (textOf env) ↔ List.IsChain (Unmixed env) cs :=
  results_after cs none

/-- `localhost`, whatever the address. -/
def loopback : Surroundings where
  getnameinfo _ := ⟨"localhost".toList, "::1".toList, by decide, by decide⟩

/-- A raw address behind a resolved one is not raw. -/
theorem raw_address_resolved :
    ¬ ∀ (env : Surroundings) (cs : List Call), results env {} cs = cs.map (textOf env) := by
  intro h
  have hraw := h loopback [⟨⟨[1], List.cons_ne_nil _ _⟩, .prAddr⟩,
    ⟨⟨[1], List.cons_ne_nil _ _⟩, .prRawAddr⟩]
  exact absurd hraw (by decide)

end Purpose

end Iputils.AddressCache
