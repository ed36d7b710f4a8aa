import ForeignCall.ArgumentArea
import ForeignCall.Trampoline
import ForeignCall.X64.Machine

/-! Invocations. An argument area is laid out in the memory of a machine, its trampoline is run up to
the call, the callee does as it likes, and the rest of the trampoline is run. -/
namespace ForeignCall

open X64

structure ReturnRegisters where
  rax : Word
  rdx : Word
  xmm0 : Word
  xmm1 : Word
  deriving DecidableEq

namespace ReturnRegisters

def zero : ReturnRegisters := ⟨0, 0, 0, 0⟩

def asDouble (r : ReturnRegisters) : Word := r.xmm0
def asFloat (r : ReturnRegisters) : BitVec 32 := r.xmm0.setWidth 32
def asPointer (r : ReturnRegisters) : Word := r.rax

/-- The block in memory that trampolines fill. -/
def bytes (r : ReturnRegisters) : List Byte := [r.rax, r.rdx, r.xmm0, r.xmm1].flatMap Word.bytes

def load (memory : Memory) (address : Word) : ReturnRegisters :=
  ⟨memory.loadWord address, memory.loadWord (address + 8), memory.loadWord (address + 16),
    memory.loadWord (address + 24)⟩

end ReturnRegisters

/-- Where the pieces of an invocation lie in memory. -/
structure CallSite where
  code : Word
  stackData : Word
  integerSlots : Word
  floatSlots : Word
  results : Word
  /-- The stack pointer on entry; the address to return to is stored there. -/
  stackTop : Word
  returnTo : Word
  deriving DecidableEq

/-- Blocks far apart from each other, with the stack aligned as after a call. -/
def CallSite.spread : CallSite :=
  ⟨0x10000, 0x100000000, 0x20000, 0x30000, 0x40000, 0x7ffffff8, 0x50000⟩

/-- What a callee finds in the places where it looks for arguments. -/
structure CalleeView where
  integers : List Word
  floats : List Word
  rax : Word
  stack : List Byte
  deriving DecidableEq

structure Invocation where
  entered : Machine
  returned : ReturnRegisters

namespace RegisterFile

def trampoline : RegisterFile → List Instr
  | separate .. => Trampoline.sysv
  | shared _ => Trampoline.win64

def parameters (file : RegisterFile) (site : CallSite) (stackSize : Nat) (target : Word) :
    List (Gpr × Word) :=
  [(.rdi, BitVec.ofNat 64 stackSize), (.rsi, site.stackData), (.rdx, site.integerSlots)] ++
    match file with
    | separate .. => [(.rcx, site.floatSlots), (.r8, target), (.r9, site.results)]
    | shared _ => [(.rcx, target), (.r8, site.results)]

/-- What a callee of this register file's platform finds on entry, of `stackSize` stack bytes. -/
def calleeView (file : RegisterFile) (m : Machine) (stackSize : Nat) : CalleeView :=
  match file with
  | separate .. =>
    ⟨Trampoline.sysvIntegers.map m.gpr, Trampoline.sysvFloats.map m.lowXmm, m.gpr .rax,
      m.memory.load (m.gpr .rsp + 8) stackSize⟩
  | shared _ =>
    ⟨Trampoline.win64Positions.map (m.gpr ·.1), Trampoline.win64Positions.map (m.lowXmm ·.2),
      m.gpr .rax,
      m.memory.load (m.gpr .rsp + 8 + BitVec.ofNat 64 Trampoline.shadowBytes) stackSize⟩

end RegisterFile

namespace ArgumentArea

def layOut (area : ArgumentArea) (site : CallSite) : Memory :=
  let blank : Memory := fun _ => 0
  blank.store site.stackData area.stack.bytes
    |>.store site.floatSlots ((area.registers.slots .float).flatMap Word.bytes)
    |>.store site.integerSlots ((area.registers.slots .integer).flatMap Word.bytes)
    |>.store site.results ReturnRegisters.zero.bytes
    |>.storeWord site.stackTop site.returnTo

def machine (area : ArgumentArea) (site : CallSite) (parameters : List (Gpr × Word)) : Machine where
  gpr register :=
    if register = .rsp then site.stackTop else (parameters.lookup register).getD 0
  xmm _ := 0
  memory := area.layOut site
  rip := site.code
  direction := false

/-- Calls `target` under a scheme. `callee` stands for the function, or for the kernel; it may fail
to return. -/
def invoke (area : ArgumentArea) (scheme : Scheme) (site : CallSite) (target : Word)
    (callee : Machine → Option Machine) : Option Invocation := do
  let stop := match scheme with
    | .syscall =>
      run Trampoline.system (area.machine site
        [(.rdi, site.integerSlots), (.rsi, target), (.rdx, site.results)])
    | .sysv | .win64 =>
      run area.registers.trampoline (area.machine site
        (area.registers.parameters site area.stack.bytes.length target))
  let (entered, rest) ← match stop with
    | .call target rest m => some (m.enter target, rest)
    | .trap rest m => some (m, rest)
    | .returned _ | .ended _ => none
  match run rest (← callee entered) with
  | .returned m => some ⟨entered, .load m.memory site.results⟩
  | _ => none

def calleeView (area : ArgumentArea) (invocation : Invocation) : CalleeView :=
  area.registers.calleeView invocation.entered area.stack.bytes.length

end ArgumentArea

def ReturnRegisters.answer (r : ReturnRegisters) (m : Machine) : Machine :=
  ((((m.setGpr .rax r.rax).setGpr .rdx r.rdx).setXmm 0 r.xmm0).setXmm 1 r.xmm1).leave

end ForeignCall
