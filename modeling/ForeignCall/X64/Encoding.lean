import ForeignCall.X64.Instruction

/-! Machine code. An encoding is an optional REX byte with the high register bits, an opcode, and a
ModRM byte with its displacement or immediate. Of several encodings the shortest displacement is
taken; arithmetic on `rax` always carries a full immediate, as its opcode needs no ModRM byte. -/
namespace ForeignCall.X64

/-- The REX byte, left out where it would say nothing. -/
def rex (wide : Bool) (reg rm : Nat) : List Byte :=
  let bits := (if wide then 8 else 0) + reg / 8 * 4 + rm / 8
  if bits = 0 then [] else [BitVec.ofNat 8 (0x40 + bits)]

def modRM (mode reg rm : Nat) : Byte := BitVec.ofNat 8 (mode * 64 + reg % 8 * 8 + rm % 8)

def fitsByte (value : Int) : Bool := -128 ≤ value && value ≤ 127

def signedBytes (n : Nat) (value : Int) : List Byte := digits n (BitVec.ofInt (8 * n) value).toNat

/-- ModRM, SIB and displacement of a memory operand. Base number 4 means that a SIB byte follows,
and base number 5 cannot go without a displacement. -/
def Place.encode (reg : Nat) (place : Place) : List Byte :=
  let base := place.base.number
  let sib : List Byte := if base % 8 = 4 then [0x24] else []
  if place.displacement = 0 ∧ base % 8 ≠ 5 then modRM 0 reg base :: sib
  else if fitsByte place.displacement then
    modRM 1 reg base :: sib ++ signedBytes 1 place.displacement
  else modRM 2 reg base :: sib ++ signedBytes 4 place.displacement

/-- The number that selects an operation in an immediate encoding. -/
def Alu.number : Alu → Nat
  | add => 0
  | and => 4
  | sub => 5

namespace Instr

def encode : Instr → List Byte
  | push source => rex false 0 source.number ++ [BitVec.ofNat 8 (0x50 + source.number % 8)]
  | pop target => rex false 0 target.number ++ [BitVec.ofNat 8 (0x58 + target.number % 8)]
  | move target source =>
    rex true source.number target.number ++ [0x89, modRM 3 source.number target.number]
  | load target source =>
    rex true target.number source.base.number ++ [0x8b] ++ source.encode target.number
  | store target source =>
    rex true source.number target.base.number ++ [0x89] ++ target.encode source.number
  | moveLow target value =>
    rex false 0 target.number ++ [BitVec.ofNat 8 (0xb8 + target.number % 8)] ++ digits 4 value.toNat
  | lea target source =>
    rex true target.number source.base.number ++ [0x8d] ++ source.encode target.number
  | alu op target source =>
    rex true source.number target.number ++
      [BitVec.ofNat 8 (op.number * 8 + 1), modRM 3 source.number target.number]
  | aluImm op target value =>
    if target = .rax then
      rex true 0 0 ++ [BitVec.ofNat 8 (op.number * 8 + 5)] ++ signedBytes 4 value
    else if fitsByte value then
      rex true 0 target.number ++ [0x83, modRM 3 op.number target.number] ++ signedBytes 1 value
    else rex true 0 target.number ++ [0x81, modRM 3 op.number target.number] ++ signedBytes 4 value
  | loadXmm target source =>
    [0xf3] ++ rex false target source.base.number ++ [0x0f, 0x7e] ++ source.encode target
  | storeXmm target source =>
    [0x66] ++ rex false source target.base.number ++ [0x0f, 0xd6] ++ target.encode source
  | moveXmm target source =>
    [0x66] ++ rex true target source.number ++ [0x0f, 0x6e, modRM 3 target source.number]
  | repMovsb => [0xf3, 0xa4]
  | call target => rex false 0 target.number ++ [0xff, modRM 3 2 target.number]
  | syscall => [0x0f, 0x05]
  | ret => [0xc3]

end Instr

def assemble (code : List Instr) : List Byte := code.flatMap Instr.encode

end ForeignCall.X64
