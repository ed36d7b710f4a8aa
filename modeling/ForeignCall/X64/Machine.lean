import ForeignCall.X64.Encoding
import ForeignCall.X64.Memory

/-! Execution of straight-line machine code. A run stops where control leaves the code: at a call, at
a system call or at a return. Whatever happens elsewhere is a change of machine made by someone
else, after which the rest of the code can be run. -/
namespace ForeignCall.X64

/-- Status flags are left out, as no instruction here reads one. -/
structure Machine where
  gpr : Gpr → Word
  xmm : Xmm → BitVec 128
  memory : Memory
  rip : Word
  /-- The direction flag: set, string instructions go downwards. -/
  direction : Bool

namespace Machine

def setGpr (m : Machine) (register : Gpr) (word : Word) : Machine :=
  { m with gpr := fun other => if other = register then word else m.gpr other }

/-- Writes the low half and clears the high half. -/
def setXmm (m : Machine) (register : Xmm) (word : Word) : Machine :=
  { m with xmm := fun other => if other = register then word.setWidth 128 else m.xmm other }

def lowXmm (m : Machine) (register : Xmm) : Word := (m.xmm register).setWidth 64

def address (m : Machine) (place : Place) : Word :=
  m.gpr place.base + BitVec.ofInt 64 place.displacement

def loadWord (m : Machine) (address : Word) : Word := m.memory.loadWord address

def storeWord (m : Machine) (address word : Word) : Machine :=
  { m with memory := m.memory.storeWord address word }

def push (m : Machine) (word : Word) : Machine :=
  let top := m.gpr .rsp - 8
  (m.setGpr .rsp top).storeWord top word

def drop (m : Machine) : Machine := m.setGpr .rsp (m.gpr .rsp + 8)

def top (m : Machine) : Word := m.loadWord (m.gpr .rsp)

/-- Enters a function; `rip` is already the address to return to. -/
def enter (m : Machine) (target : Word) : Machine := { m.push m.rip with rip := target }

def leave (m : Machine) : Machine := { m.drop with rip := m.top }

def stride (m : Machine) : Word := if m.direction then -1 else 1

def moveByte (m : Machine) : Machine :=
  let copied := { m with memory := m.memory.put (m.gpr .rdi) (m.memory (m.gpr .rsi)) }
  ((copied.setGpr .rdi (m.gpr .rdi + m.stride)).setGpr .rsi (m.gpr .rsi + m.stride)).setGpr .rcx
    (m.gpr .rcx - 1)

/-- Each byte is read after those before it were written, so overlapping blocks run together. -/
def moveBytes (m : Machine) : Nat → Machine
  | 0 => m
  | count + 1 => m.moveByte.moveBytes count

end Machine

def Alu.apply : Alu → Word → Word → Word
  | add => (· + ·)
  | and => (· &&& ·)
  | sub => (· - ·)

inductive Event where
  | next (machine : Machine)
  | call (target : Word) (machine : Machine)
  | trap (machine : Machine)
  | returned (machine : Machine)

namespace Instr

/-- The effect of an instruction on a machine whose `rip` is already past it. -/
def effect (m : Machine) : Instr → Event
  | push source => .next (m.push (m.gpr source))
  | pop target => .next (m.drop.setGpr target m.top)
  | move target source => .next (m.setGpr target (m.gpr source))
  | load target source => .next (m.setGpr target (m.loadWord (m.address source)))
  | store target source => .next (m.storeWord (m.address target) (m.gpr source))
  | moveLow target value => .next (m.setGpr target (value.setWidth 64))
  | lea target source => .next (m.setGpr target (m.address source))
  | alu op target source => .next (m.setGpr target (op.apply (m.gpr target) (m.gpr source)))
  | aluImm op target value =>
    .next (m.setGpr target (op.apply (m.gpr target) (BitVec.ofInt 64 value)))
  | loadXmm target source => .next (m.setXmm target (m.loadWord (m.address source)))
  | storeXmm target source => .next (m.storeWord (m.address target) (m.lowXmm source))
  | moveXmm target source => .next (m.setXmm target (m.gpr source))
  | repMovsb => .next (m.moveBytes (m.gpr .rcx).toNat)
  | call target => .call (m.gpr target) m
  | syscall => .trap m
  | ret => .returned m.leave

def execute (m : Machine) (i : Instr) : Event :=
  i.effect { m with rip := m.rip + BitVec.ofNat 64 i.encode.length }

end Instr

/-- Why a run stopped, and what is left of the code. -/
inductive Stop where
  | call (target : Word) (rest : List Instr) (machine : Machine)
  | trap (rest : List Instr) (machine : Machine)
  | returned (machine : Machine)
  | ended (machine : Machine)

def run : List Instr → Machine → Stop
  | [], m => .ended m
  | i :: rest, m =>
    match i.execute m with
    | .next m => run rest m
    | .call target m => .call target rest m
    | .trap m => .trap rest m
    | .returned m => .returned m

end ForeignCall.X64
