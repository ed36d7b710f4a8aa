import ForeignCall.Convention

/-! What can go wrong. A `CallError` is an answer the caller is expected to handle; a `Fault` is a
broken promise that stops the operation. Each has one wording, but for what an assembler or a memory
map has to say for itself. -/
namespace ForeignCall

inductive SelectionError where
  | unsupported (convention : Convention) (platform : Platform)
  | unknown (identifier : Int)
  deriving DecidableEq

def SelectionError.message : SelectionError → String
  | unsupported convention platform =>
    s!"calling convention {convention.name} is not supported on {platform.name}"
  | unknown identifier => s!"unknown calling convention identifier {identifier}"

/-- Why the machine code of the trampolines could not be put in place. -/
inductive TrampolineFailure where
  | assembly (text : String)
  | mapping (text : String)
  | protection
  deriving DecidableEq

def TrampolineFailure.message : TrampolineFailure → String
  | assembly text | mapping text => text
  | protection => "Error setting memory protections"

inductive CallError where
  | selection (error : SelectionError)
  | structUnsupported
  | trampoline (cause : TrampolineFailure)
  deriving DecidableEq

namespace CallError

def message : CallError → String
  | selection error => error.message
  | structUnsupported => "struct arguments are not supported by the active calling convention"
  | trampoline cause => s!"call trampolines are unavailable: {cause.message}"

def isSelection : CallError → Bool
  | selection _ => true
  | _ => false

end CallError

inductive Fault where
  | sumOverflow
  | productOverflow
  | roomOverflow
  /-- The data of a structure is not as long as its layout. -/
  | dataLength (given size : Nat)
  /-- A classifier was handed fewer bytes than the structure has. -/
  | dataShort (given size : Nat)
  | tooManyArguments
  deriving DecidableEq

def Fault.message : Fault → String
  | sumOverflow => "attempt to add with overflow"
  | productOverflow => "attempt to multiply with overflow"
  | roomOverflow => "capacity overflow"
  | dataLength given size =>
    "assertion `left == right` failed: struct data does not match its layout\n" ++
      s!"  left: {given}\n right: {size}"
  | dataShort given size =>
    s!"range end index {size} out of range for slice of length {given}"
  | tooManyArguments => "system calls take at most 6 arguments"

inductive Failure where
  | error (cause : CallError)
  | fault (cause : Fault)
  deriving DecidableEq

end ForeignCall
