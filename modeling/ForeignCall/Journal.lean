import ForeignCall.Scheme
import ForeignCall.Failure

/-! The journal: what an operation reports while it runs. Every operation returns its records in
order beside its result and the new state, whether or not it succeeds. -/
namespace ForeignCall

inductive Level where
  | trace
  | debug
  | warn
  deriving DecidableEq

def Level.name : Level → String
  | trace => "TRACE"
  | debug => "DEBUG"
  | warn => "WARN"

inductive Record where
  | integerSpilled
  | floatSpilled
  | memoryClass (size : Nat)
  | unaligned
  | registersShort (integers floats : Nat)
  | unrolled (integers floats : Nat)
  | byMemory (size : Nat)
  | inRegister (size : Nat)
  | selectionFailed (error : SelectionError)
  | switched (convention : Convention) (scheme : Scheme)
  | created (platform : Platform) (room : Nat)
  | freed
  deriving DecidableEq

namespace Record

def level : Record → Level
  | selectionFailed _ => .warn
  | switched .. | created .. | freed => .debug
  | _ => .trace

def message : Record → String
  | integerSpilled => "integer registers exhausted, spilling to stack"
  | floatSpilled => "float registers exhausted, spilling to stack"
  | memoryClass size => s!"{size} byte aggregate is class MEMORY"
  | unaligned => "aggregate with unaligned fields is class MEMORY"
  | registersShort integers floats =>
    s!"not enough registers left for aggregate ({integers} integer, {floats} sse)"
  | unrolled integers floats =>
    s!"aggregate unrolled into {integers} integer and {floats} sse registers"
  | byMemory size => s!"{size} byte aggregate is passed by memory"
  | inRegister size => s!"{size} byte aggregate passed in a register"
  | selectionFailed error => error.message
  | switched convention scheme => s!"switched to {convention.name} ({scheme.name})"
  | created platform room =>
    s!"created call context for {platform.name} with {room} bytes of stack room"
  | freed => "freeing call context"

end Record

/-- What an operation leaves behind: its result, its records and the state after it. -/
structure Outcome (σ α : Type) where
  result : α
  records : List Record
  state : σ

namespace Outcome

def quiet (state : σ) (result : α) : Outcome σ α := ⟨result, [], state⟩

def mapResult (outcome : Outcome σ α) (f : α → β) : Outcome σ β :=
  ⟨f outcome.result, outcome.records, outcome.state⟩

/-- The operation on a part, seen as an operation on the whole that `embed` puts it back into. -/
def within (outcome : Outcome σ α) (embed : σ → τ) : Outcome τ α :=
  ⟨outcome.result, outcome.records, embed outcome.state⟩

end Outcome

end ForeignCall
