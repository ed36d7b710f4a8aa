import ForeignCall.Layout.Basic
import ForeignCall.Failure

/-! Placing the members of a structure. Each member starts at the least multiple of its alignment
that is not below the end of the one before, and the size is the least multiple of the largest
alignment that covers them all. Sizes are numbers below 2^64; an operation that would leave that
range is a fault, and the first one in order of evaluation is reported. -/
namespace ForeignCall

abbrev sizeBound : Nat := 0x10000000000000000

def checkedAdd (a b : Nat) : Except Fault Nat :=
  if a + b < sizeBound then .ok (a + b) else .error .sumOverflow

def checkedMul (a b : Nat) : Except Fault Nat :=
  if a * b < sizeBound then .ok (a * b) else .error .productOverflow

/-- The least multiple of `alignment` that is not below `offset`. -/
def roundUp (offset alignment : Nat) : Nat := (offset + alignment - 1) / alignment * alignment

/-- Rounding needs room for a whole further `alignment`, even where none would be used. -/
def checkedRoundUp (offset alignment : Nat) : Except Fault Nat := do
  let _ ← checkedAdd offset alignment
  return roundUp offset alignment

/-- A packed structure caps the alignment of its members; a cap of zero acts as one. -/
def capAlignment (pack : Option Nat) (alignment : Nat) : Nat :=
  match pack with
  | none => alignment
  | some limit => min alignment (max limit 1)

structure Extent where
  fields : List (Field Layout)
  stop : Nat
  alignment : Nat

def placeMembers (pack : Option Nat) (start alignment : Nat) :
    List (Member Layout) → Except Fault Extent
  | [] => return ⟨[], start, alignment⟩
  | member :: rest => do
    let own := capAlignment pack member.element.alignment
    let offset ← checkedRoundUp start own
    let extent ← checkedMul member.element.size member.count
    let stop ← checkedAdd offset extent
    let placed ← placeMembers pack stop (max alignment own) rest
    return { placed with fields := ⟨member, offset⟩ :: placed.fields }

def Layout.ofMembers (pack : Option Nat) (members : List (Member Layout)) :
    Except Fault Layout := do
  let placed ← placeMembers pack 0 1 members
  let size ← checkedRoundUp placed.stop placed.alignment
  return ⟨size, placed.alignment, placed.fields⟩

end ForeignCall
