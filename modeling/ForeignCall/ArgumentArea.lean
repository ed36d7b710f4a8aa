import ForeignCall.Aggregate
import ForeignCall.Argument

/-! The argument area of a call: registers and stack bytes, and how each scheme puts arguments into
them. An ordinary call fills the registers of an argument's class and then spills words to the
stack; a structure always has a stack copy and may reach registers as well. A system call takes a
few words in integer registers and nothing else. -/
namespace ForeignCall

/-- Stack bytes back to back, without padding; `grown` once they have outgrown the room reserved
at the start. -/
structure ArgumentStack where
  bytes : List Byte
  room : Nat
  grown : Bool
  deriving DecidableEq

namespace ArgumentStack

/-- No allocation reaches half of the address space. -/
def roomBound : Nat := 0x8000000000000000

def reserve (room : Nat) : Except Fault ArgumentStack :=
  if room < roomBound then .ok ⟨[], room, false⟩ else .error .roomOverflow

def append (stack : ArgumentStack) (bytes : List Byte) : ArgumentStack :=
  let extended := stack.bytes ++ bytes
  { stack with bytes := extended, grown := stack.grown || stack.room < extended.length }

def reset (stack : ArgumentStack) : ArgumentStack := { stack with bytes := [] }

end ArgumentStack

structure ArgumentArea where
  registers : RegisterFile
  stack : ArgumentStack
  deriving DecidableEq

def Scheme.classifier? : Scheme → Option Classifier
  | sysv => some .sysv
  | win64 => some .win64
  | syscall => none

namespace ArgumentArea

def empty (platform : Platform) (room : Nat) : Except Fault ArgumentArea := do
  return ⟨.empty platform, ← ArgumentStack.reserve room⟩

def reset (area : ArgumentArea) : ArgumentArea := ⟨area.registers.reset, area.stack.reset⟩

def spillRecord : RegisterClass → Record
  | .integer => .integerSpilled
  | .float => .floatSpilled

/-- Register or stack, whichever is next for the class. -/
def pushGeneral (area : ArgumentArea) (argument : Argument) :
    Outcome ArgumentArea (Except Failure Unit) :=
  let (placed, registers) := area.registers.push argument.registerClass argument.word
  if placed then .quiet { area with registers } (.ok ())
  else ⟨.ok (), [spillRecord argument.registerClass],
    ⟨registers, area.stack.append argument.word.bytes⟩⟩

/-- Any word goes to the next integer register; there is no stack to spill to. -/
def pushSystem (area : ArgumentArea) (argument : Argument) :
    Outcome ArgumentArea (Except Failure Unit) :=
  if area.registers.used .integer < Scheme.syscallLimit then
    let (placed, registers) := area.registers.push .integer argument.word
    .quiet { area with registers } (if placed then .ok () else .error (.fault .tooManyArguments))
  else .quiet area (.error (.fault .tooManyArguments))

def push (area : ArgumentArea) : Scheme → Argument → Outcome ArgumentArea (Except Failure Unit)
  | .sysv | .win64 => area.pushGeneral
  | .syscall => area.pushSystem

def pushAggregate (area : ArgumentArea) (classifier : Classifier) (layout : Layout)
    (data : List Byte) : Outcome ArgumentArea (Except Failure Unit) :=
  if data.length = layout.size then
    let stack := area.stack.append data
    if layout.size ≤ Classifier.offerLimit then
      ((area.registers.classify classifier layout data).mapResult
        (·.mapError .fault)).within fun registers => ⟨registers, stack⟩
    else .quiet { area with stack } (.ok ())
  else .quiet area (.error (.fault (.dataLength data.length layout.size)))

def pushStruct (area : ArgumentArea) (scheme : Scheme) (layout : Layout) (data : List Byte) :
    Outcome ArgumentArea (Except Failure Unit) :=
  match scheme.classifier? with
  | some classifier => area.pushAggregate classifier layout data
  | none => .quiet area (.error (.error .structUnsupported))

inductive Operation where
  | push (scheme : Scheme) (argument : Argument)
  | pushStruct (scheme : Scheme) (layout : Layout) (data : List Byte)
  | classify (classifier : Classifier) (layout : Layout) (data : List Byte)
  | pushWord (kind : RegisterClass) (word : Word)
  | append (bytes : List Byte)
  | reset
  | resetRegisters
  | resetStack

inductive Answer where
  | done
  | placed (found : Bool)
  | failed (cause : Failure)
  deriving DecidableEq

def Answer.ofExcept : Except Failure Unit → Answer
  | .ok () => done
  | .error cause => failed cause

def perform (area : ArgumentArea) : Operation → Outcome ArgumentArea Answer
  | .push scheme argument => (area.push scheme argument).mapResult .ofExcept
  | .pushStruct scheme layout data => (area.pushStruct scheme layout data).mapResult .ofExcept
  | .classify classifier layout data =>
    ((area.registers.classify classifier layout data).mapResult
      fun result => .ofExcept (result.mapError .fault)).within fun registers => { area with registers }
  | .pushWord kind word =>
    let (placed, registers) := area.registers.push kind word
    .quiet { area with registers } (.placed placed)
  | .append bytes => .quiet { area with stack := area.stack.append bytes } .done
  | .reset => .quiet area.reset .done
  | .resetRegisters => .quiet { area with registers := area.registers.reset } .done
  | .resetStack => .quiet { area with stack := area.stack.reset } .done

end ArgumentArea
end ForeignCall
