import ForeignCall.Bytes
import ForeignCall.Convention
import ForeignCall.Scalar

/-! The register half of an argument area. Unix keeps one row of slots per class; Windows assigns
registers by position, so both classes share one row. A row never forgets: emptying it resets the
counter and leaves the words where they are. -/
namespace ForeignCall

def slotBytes : Nat := 8

/-- A row of `n` slots, filled from the front. -/
structure SlotRow (n : Nat) where
  slots : Vector Word n
  used : Nat
  deriving DecidableEq

namespace SlotRow

def empty : SlotRow n := ⟨Vector.replicate n 0, 0⟩

def reset (row : SlotRow n) : SlotRow n := { row with used := 0 }

def push (row : SlotRow n) (word : Word) : Bool × SlotRow n :=
  if free : row.used < n then (true, ⟨row.slots.set row.used word, row.used + 1⟩)
  else (false, row)

theorem push_of_free {row : SlotRow n} (free : row.used < n) (word : Word) :
    row.push word = (true, ⟨row.slots.set row.used word, row.used + 1⟩) := by
  simp [push, free]

theorem push_of_full {row : SlotRow n} (full : n ≤ row.used) (word : Word) :
    row.push word = (false, row) := by
  simp [push, Nat.not_lt.mpr full]

end SlotRow

abbrev integerSlots : Nat := 6
abbrev floatSlots : Nat := 8
/-- Positions on Windows. -/
abbrev sharedSlots : Nat := 4

inductive RegisterFile where
  | separate (integers : SlotRow integerSlots) (floats : SlotRow floatSlots)
  | shared (slots : SlotRow sharedSlots)
  deriving DecidableEq

namespace RegisterFile

def empty : Platform → RegisterFile
  | .unix => separate .empty .empty
  | .windows => shared .empty

/-- Bytes that the slots of a platform take up. -/
def areaSize : Platform → Nat
  | .unix => (integerSlots + floatSlots) * slotBytes
  | .windows => sharedSlots * slotBytes

def reset : RegisterFile → RegisterFile
  | separate integers floats => separate integers.reset floats.reset
  | shared slots => shared slots.reset

/-- Puts a word in the next slot of its class, if there is one, and tells whether there was. -/
def push (file : RegisterFile) (kind : RegisterClass) (word : Word) : Bool × RegisterFile :=
  match file, kind with
  | separate integers floats, .integer =>
    let (placed, integers) := integers.push word
    (placed, separate integers floats)
  | separate integers floats, .float =>
    let (placed, floats) := floats.push word
    (placed, separate integers floats)
  | shared slots, _ =>
    let (placed, slots) := slots.push word
    (placed, shared slots)

/-- Every slot of a class, also those that the current call has not filled. -/
def slots (file : RegisterFile) (kind : RegisterClass) : List Word :=
  match file, kind with
  | separate integers _, .integer => integers.slots.toList
  | separate _ floats, .float => floats.slots.toList
  | shared slots, _ => slots.slots.toList

/-- Slots of a class that the current call has filled. -/
def used (file : RegisterFile) (kind : RegisterClass) : Nat :=
  match file, kind with
  | separate integers _, .integer => integers.used
  | separate _ floats, .float => floats.used
  | shared slots, _ => slots.used

def remaining (file : RegisterFile) (kind : RegisterClass) : Nat :=
  (file.slots kind).length - file.used kind

end RegisterFile
end ForeignCall
