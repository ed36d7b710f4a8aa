import ForeignCall.Bytes

/-! The x86-64 registers and instructions that trampolines are made of. -/
namespace ForeignCall.X64

inductive Gpr where
  | rax | rcx | rdx | rbx | rsp | rbp | rsi | rdi
  | r8 | r9 | r10 | r11 | r12 | r13 | r14 | r15
  deriving DecidableEq

/-- The number by which encodings name a register. -/
def Gpr.number : Gpr → Nat
  | rax => 0 | rcx => 1 | rdx => 2 | rbx => 3 | rsp => 4 | rbp => 5 | rsi => 6 | rdi => 7
  | r8 => 8 | r9 => 9 | r10 => 10 | r11 => 11 | r12 => 12 | r13 => 13 | r14 => 14 | r15 => 15

abbrev Xmm := Fin 16

/-- Vector registers are written as numerals. -/
instance sixteen_neZero : @NeZero Nat .ofOfNat0 16 := Nat.instNeZeroSucc

structure Place where
  base : Gpr
  displacement : Int
  deriving DecidableEq

inductive Alu where
  | add
  | and
  | sub
  deriving DecidableEq

inductive Instr where
  | push (source : Gpr)
  | pop (target : Gpr)
  | move (target source : Gpr)
  | load (target : Gpr) (source : Place)
  | store (target : Place) (source : Gpr)
  /-- Clears the high half of the target. -/
  | moveLow (target : Gpr) (value : BitVec 32)
  | lea (target : Gpr) (source : Place)
  | alu (op : Alu) (target source : Gpr)
  /-- The value is a signed 32-bit number. -/
  | aluImm (op : Alu) (target : Gpr) (value : Int)
  | loadXmm (target : Xmm) (source : Place)
  | storeXmm (target : Place) (source : Xmm)
  | moveXmm (target : Xmm) (source : Gpr)
  | repMovsb
  | call (target : Gpr)
  | syscall
  | ret
  deriving DecidableEq

end ForeignCall.X64
