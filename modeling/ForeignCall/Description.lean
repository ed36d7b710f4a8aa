import ForeignCall.Context

/-! Descriptions: one-line texts of values for people who look into a context. A record is a name
with its fields in braces, a variant a name with its contents in parentheses, and a list its items
in brackets; numbers are decimal. -/
namespace ForeignCall
namespace Description

def variant (name content : String) : String := s!"{name}({content})"

def list (items : List String) : String := "[" ++ ", ".intercalate items ++ "]"

def record (name : String) (fields : List (String × String)) : String :=
  let body := ", ".intercalate (fields.map fun (label, text) => s!"{label}: {text}")
  s!"{name} \x7b {body} \x7d"

def optional : Option String → String
  | none => "None"
  | some text => variant "Some" text

end Description

open Description

def describeField (offset count : Nat) (kind : String) : String :=
  record "Field" [("offset", toString offset), ("kind", kind), ("count", toString count)]

mutual
def Layout.describe : Layout → String
  | ⟨size, alignment, fields⟩ =>
    record "StructLayout" [("size", toString size), ("alignment", toString alignment),
      ("fields", list (describeFields fields))]
def describeFields : List (Field Layout) → List String
  | [] => []
  | ⟨⟨.scalar type, count⟩, offset⟩ :: rest =>
    describeField offset count (variant "Scalar" type.name) :: describeFields rest
  | ⟨⟨.struct inner, count⟩, offset⟩ :: rest =>
    describeField offset count (variant "Struct" inner.describe) :: describeFields rest
end

def SelectionError.describe : SelectionError → String
  | unsupported convention platform =>
    record "UnsupportedMode" [("mode", convention.name), ("platform", platform.name)]
  | unknown identifier => variant "UnknownMode" (toString identifier)

/-- Failures of the trampolines have no description of their own. -/
def CallError.describe? : CallError → Option String
  | selection error => some error.describe
  | structUnsupported => some "StructUnsupported"
  | trampoline _ => none

def SlotRow.describe (row : SlotRow n) : String :=
  list (row.slots.toList.map fun word => toString word.toNat)

def RegisterFile.describe : RegisterFile → String
  | separate integers floats =>
    variant "SysV" (record "SysVRegisters" [("ints", integers.describe), ("floats", floats.describe),
      ("int_count", toString integers.used), ("float_count", toString floats.used)])
  | shared slots =>
    variant "Win64" (record "Win64Registers" [("slots", slots.describe),
      ("count", toString slots.used)])

def ArgumentStack.describe (stack : ArgumentStack) : String :=
  record "ArgStack" [("data", list (stack.bytes.map fun byte => toString byte.toNat))]

def ArgumentArea.describe (area : ArgumentArea) : String :=
  record "CallState" [("registers", area.registers.describe), ("stack", area.stack.describe)]

def Context.describe (context : Context) : String :=
  record "CallVm" [("state", context.area.describe), ("backend", context.scheme.name),
    ("mode", context.convention.name), ("platform", context.platform.name),
    ("error", optional (context.lastError.map SelectionError.describe))]

end ForeignCall
