import Iputils.ByteBuffer

/-!
# Classic BPF

The loads, the comparison and the return of a classic BPF filter program. A load
takes bytes of the packet in network order; one that leaves the packet ends the
program with the value 0, which rejects the packet. Jumps only go forward, by a
number of instructions to skip, so a program is run by recursion on its list of
instructions.
-/
set_option autoImplicit false

namespace Iputils.ClassicBpf
open ByteBuffer

inductive Size
  | b | h
deriving Repr, DecidableEq

/-- `BPF_ABS` and `BPF_IND`: an offset in the packet, alone or added to `X`. -/
inductive Mode
  | abs | ind
deriving Repr, DecidableEq

inductive Insn
  | ld (size : Size) (mode : Mode) (k : ℕ)
  | ldxMsh (k : ℕ)
  | jeq (k : ℤ) (jt jf : ℕ)
  | ret (k : ℕ)
deriving Repr, DecidableEq

structure Regs where
  a : ℤ := 0
  x : ℕ := 0

/-- The offset that a load with argument `k` reads. -/
def Mode.offset (regs : Regs) (k : ℕ) : Mode → ℕ
  | .abs => k
  | .ind => regs.x + k

def load (packet : List UInt8) (off : ℕ) : Size → Option ℤ
  | .b => if off < packet.length then some (byteAt packet off) else none
  | .h => if off + 1 < packet.length then some (be16At packet off) else none

/-- The value that the program returns; `skip` instructions are passed over first. -/
def run (packet : List UInt8) : List Insn → ℕ → Regs → ℕ
  | [], _, _ => 0
  | _ :: rest, skip + 1, regs => run packet rest skip regs
  | .ld size mode k :: rest, 0, regs =>
      match load packet (mode.offset regs k) size with
      | some v => run packet rest 0 { regs with a := v }
      | none => 0
  | .ldxMsh k :: rest, 0, regs =>
      match load packet k .b with
      | some v => run packet rest 0 { regs with x := 4 * (v % 16).toNat }
      | none => 0
  | .jeq k jt jf :: rest, 0, regs => run packet rest (if regs.a = k then jt else jf) regs
  | .ret k :: _, 0, _ => k

def Rejects (program : List Insn) (packet : List UInt8) : Prop := run packet program 0 {} = 0

instance (program : List Insn) (packet : List UInt8) : Decidable (Rejects program packet) :=
  inferInstanceAs (Decidable (_ = _))

/-- Loads do not depend on the accumulator. -/
theorem Mode.offset_a (mode : Mode) (regs : Regs) (a : ℤ) (k : ℕ) :
    mode.offset { regs with a := a } k = mode.offset regs k := by
  cases mode <;> rfl

section Run
variable {packet : List UInt8} {rest : List Insn} {regs : Regs} {k : ℕ}

@[simp] theorem run_ret : run packet (.ret k :: rest) 0 regs = k := by
  cases rest <;> rfl

/-- A load that leaves the packet rejects it. -/
theorem run_ld_none {size : Size} {mode : Mode} (h : load packet (mode.offset regs k) size = none) :
    run packet (.ld size mode k :: rest) 0 regs = 0 := by
  rw [run, h]

theorem run_ld_some {size : Size} {mode : Mode} {v : ℤ}
    (h : load packet (mode.offset regs k) size = some v) :
    run packet (.ld size mode k :: rest) 0 regs = run packet rest 0 { regs with a := v } := by
  rw [run, h]

/-- Return at once if the accumulator has a value, go on otherwise. -/
theorem run_accept {v : ℤ} :
    run packet (.jeq v 0 1 :: .ret k :: rest) 0 regs =
      if regs.a = v then k else run packet rest 0 regs := by
  rw [run]
  split_ifs
  · exact run_ret
  · rfl

/-- Reject if the accumulator has a value, return otherwise. -/
theorem run_refuse {v : ℤ} :
    run packet (.jeq v 1 0 :: .ret k :: .ret 0 :: rest) 0 regs = if regs.a = v then 0 else k := by
  rw [run]
  split_ifs
  · rfl
  · exact run_ret

end Run

end Iputils.ClassicBpf
