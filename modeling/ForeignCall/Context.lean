import ForeignCall.Invocation

/-! Call contexts: an argument area with a convention selected for it. Selecting another convention
changes the scheme of later arguments and keeps those already there; a selection that fails changes
nothing but the error that the context remembers, until the next one succeeds. -/
namespace ForeignCall

def Platform.select (platform : Platform) (convention : Convention) :
    Except SelectionError Scheme × List Record :=
  match platform.scheme? convention with
  | some scheme => (.ok scheme, [])
  | none =>
    let error := SelectionError.unsupported convention platform
    (.error error, [.selectionFailed error])

structure Context where
  area : ArgumentArea
  scheme : Scheme
  convention : Convention
  platform : Platform
  lastError : Option SelectionError
  deriving DecidableEq

namespace Context

def defaultSize : Nat := 4096

/-- The stack room of a context of `size` bytes: what the register area leaves over. -/
def roomOf (platform : Platform) (size : Nat) : Nat := size - RegisterFile.areaSize platform

def create (platform : Platform) (size : Nat) : Except Fault (Outcome Context Unit) := do
  let room := roomOf platform size
  let area ← ArgumentArea.empty platform room
  return ⟨(), [.created platform room], ⟨area, platform.general, .standard, platform, none⟩⟩

def farewell : List Record := [.freed]

def reset (context : Context) : Context := { context with area := context.area.reset }

def push (context : Context) (argument : Argument) : Outcome Context (Except Failure Unit) :=
  (context.area.push context.scheme argument).within fun area => { context with area }

def pushStruct (context : Context) (layout : Layout) (data : List Byte) :
    Outcome Context (Except Failure Unit) :=
  (context.area.pushStruct context.scheme layout data).within fun area => { context with area }

def refuse (context : Context) (error : SelectionError) (records : List Record) :
    Outcome Context (Except SelectionError Unit) :=
  ⟨.error error, records, { context with lastError := some error }⟩

def select (context : Context) (convention : Convention) :
    Outcome Context (Except SelectionError Unit) :=
  match context.platform.select convention with
  | (.ok scheme, records) =>
    ⟨.ok (), records ++ [.switched convention scheme],
      { context with scheme, convention, lastError := none }⟩
  | (.error error, records) => context.refuse error records

def selectIdentifier (context : Context) (identifier : Int) :
    Outcome Context (Except SelectionError Unit) :=
  match Convention.ofIdentifier? identifier with
  | some convention => context.select convention
  | none =>
    let error := SelectionError.unknown identifier
    context.refuse error [.selectionFailed error]

def invoke (context : Context) (site : CallSite) (target : Word)
    (callee : X64.Machine → Option X64.Machine) : Option Invocation :=
  context.area.invoke context.scheme site target callee

inductive Operation where
  | push (argument : Argument)
  | pushStruct (layout : Layout) (data : List Byte)
  | reset
  | select (convention : Convention)
  | selectIdentifier (identifier : Int)
  | invoke (site : CallSite) (target : Word) (callee : X64.Machine → Option X64.Machine)

inductive Answer where
  | done
  | failed (cause : Failure)
  | returned (invocation : Option Invocation)

namespace Answer

def ofExcept : Except Failure Unit → Answer
  | .ok () => done
  | .error cause => failed cause

def ofSelection (result : Except SelectionError Unit) : Answer :=
  .ofExcept (result.mapError fun error => .error (.selection error))

end Answer

def perform (context : Context) : Operation → Outcome Context Answer
  | .push argument => (context.push argument).mapResult .ofExcept
  | .pushStruct layout data => (context.pushStruct layout data).mapResult .ofExcept
  | .reset => .quiet context.reset .done
  | .select convention => (context.select convention).mapResult .ofSelection
  | .selectIdentifier identifier => (context.selectIdentifier identifier).mapResult .ofSelection
  | .invoke site target callee => .quiet context (.returned (context.invoke site target callee))

end Context
end ForeignCall
