import ForeignCall.Proofs.Placement

/-! The counting rules of the two conventions, and their round trips. System V counts integer and
float slots apart, six and eight of them; Microsoft x64 counts four positions for both. In either,
a run of pushes onto an empty area is read back to the last slot and the last stack byte. -/
namespace ForeignCall

/-- The slots taken of each class. -/
structure ClassCounters where
  integers : Nat
  floats : Nat
  deriving DecidableEq

namespace SlotRule

def sysv : SlotRule ClassCounters where
  start := ⟨0, 0⟩
  taken counters kind := match kind with
    | .integer => counters.integers
    | .float => counters.floats
  take counters kind := match kind with
    | .integer => { counters with integers := counters.integers + 1 }
    | .float => { counters with floats := counters.floats + 1 }
  budget kind := match kind with
    | .integer => integerSlots
    | .float => floatSlots
  classifier := .sysv

def win64 : SlotRule Nat where
  start := 0
  taken position _ := position
  take position _ := position + 1
  budget _ := sharedSlots
  classifier := .win64

theorem win64_counts_shared {position : Nat} {file : RegisterFile}
    (counts : win64.Counts position file) : ∃ row, file = .shared row ∧ position = row.used := by
  cases file with
  | separate integers floats =>
    have four := counts.budget .integer
    rw [RegisterFile.slots, Vector.length_toList] at four
    cases four
  | shared row => exact ⟨row, rfl, counts.taken .integer⟩

theorem win64_counts_used (row : SlotRow sharedSlots) : win64.Counts row.used (.shared row) :=
  ⟨fun _ => rfl, fun _ => row.slots.length_toList.symm⟩

theorem win64_faithful : win64.Faithful where
  push := by
    intro position file kind word counts free
    obtain ⟨row, rfl, rfl⟩ := win64_counts_shared counts
    simp only [RegisterFile.used, RegisterFile.slots, Vector.length_toList] at free
    rw [RegisterFile.push_shared, SlotRow.push_of_free free]
    exact win64_counts_used ⟨row.slots.set row.used word free, row.used + 1⟩
  admits := by
    intro position layout
    show win64.Admits position (Classifier.win64.granted (win64.left position) layout)
    simp only [Classifier.granted]
    split
    · next fits => exact ⟨Nat.lt_of_sub_pos fits.2, trivial⟩
    · trivial

end SlotRule

/-- Arguments that crowd either convention: structures of one register, of two and of none, and
scalars of both classes on either side of the last free slot. -/
def crowded : List CallArgument :=
  let single : Layout := ⟨4, 4, [⟨⟨.scalar .float, 1⟩, 0⟩]⟩
  let pair : Layout := ⟨16, 8, [⟨⟨.scalar .double, 1⟩, 0⟩, ⟨⟨.scalar .longLong, 1⟩, 8⟩]⟩
  [.scalar (.short 0xfffe), .struct single [0, 0, 0x80, 0x3f], .scalar (.double 0x4000000000000000),
    .struct pair (List.replicate 16 0x11), .scalar (.bool true), .scalar (.int 0x80000000),
    .scalar (.pointer 0x7fff0000), .scalar (.float 0x3f800000), .scalar (.longLong 9),
    .struct pair (List.replicate 16 0x22), .scalar (.char 0xff)]

/-- The same for Microsoft x64, whose callee counts positions. Both classes always see one row of
slots, and what follows the fourth position is on the stack, in order. -/
theorem win64_arguments_recovered (row : SlotRow sharedSlots) (stack : ArgumentStack)
    (arguments : List CallArgument) (exact : ∀ argument ∈ arguments, argument.Exact) :
    ∃ final, (ArgumentArea.reset ⟨.shared row, stack⟩).pushArguments .win64 arguments = .ok final ∧
      SlotRule.win64.read final.registers.slots final.stack.bytes
          (arguments.map CallArgument.parameter) ⟨SlotRule.win64.start, 0⟩ =
        some (arguments, ⟨final.registers.used .integer, final.stack.bytes.length⟩) ∧
      ∀ before after, arguments = before ++ after → ∃ middle,
        (ArgumentArea.reset ⟨.shared row, stack⟩).pushArguments .win64 before = .ok middle ∧
        middle.registers.slots .float = middle.registers.slots .integer ∧
        middle.registers.used .float = middle.registers.used .integer ∧
        (middle.registers.used .integer = sharedSlots → final.registers = middle.registers ∧
          final.stack.bytes = middle.stack.bytes ++ after.flatMap CallArgument.stackBytes) := by
  have general : Scheme.win64.classifier? = some .win64 := rfl
  obtain ⟨final, pushed⟩ := ArgumentArea.pushArguments_ok general
    (.reset ⟨.shared row, stack⟩) exact
  have here : SlotRule.win64.At ⟨SlotRule.win64.start, 0⟩
      (ArgumentArea.reset ⟨.shared row, stack⟩) :=
    ⟨SlotRule.win64_counts_used row.reset, rfl⟩
  obtain ⟨⟨position, offset⟩, found, counts, passed⟩ :=
    SlotRule.read_pushArguments SlotRule.win64_faithful general exact here pushed
  refine ⟨final, pushed, ?_, ?_⟩
  · rw [found, ← counts.taken .integer, ← passed]
    rfl
  · rintro before after rfl
    have earlier : ∀ argument ∈ before, argument.Exact :=
      fun argument member => exact argument (List.mem_append_left after member)
    have later : ∀ argument ∈ after, argument.Exact :=
      fun argument member => exact argument (List.mem_append_right before member)
    obtain ⟨middle, prior⟩ := ArgumentArea.pushArguments_ok general
      (.reset ⟨.shared row, stack⟩) earlier
    rw [ArgumentArea.pushArguments_append, prior] at pushed
    obtain ⟨_, -, there⟩ :=
      SlotRule.read_pushArguments SlotRule.win64_faithful general earlier here prior
    obtain ⟨shared, same, -⟩ := SlotRule.win64_counts_shared there.counts
    refine ⟨middle, prior, ?_, ?_, fun spent => ?_⟩
    · rw [same]
      rfl
    · rw [same]
      rfl
    · refine ArgumentArea.pushArguments_of_full general later (fun kind => ?_) pushed
      rw [same] at spent ⊢
      simp only [RegisterFile.remaining, RegisterFile.slots, Vector.length_toList]
      exact Nat.sub_eq_zero_of_le (Nat.le_of_eq spent.symm)

theorem win64_crowded_recovered :
    (∀ argument ∈ crowded, argument.Exact) ∧
    ∃ final, (ArgumentArea.reset ⟨.shared .empty, ⟨[], 0, false⟩⟩).pushArguments .win64 crowded =
        .ok final ∧
      SlotRule.win64.read final.registers.slots final.stack.bytes
          (crowded.map CallArgument.parameter) ⟨SlotRule.win64.start, 0⟩ =
        some (crowded, ⟨final.registers.used .integer, final.stack.bytes.length⟩) := by
  refine ⟨by decide, ?_⟩
  obtain ⟨final, pushed, found, -⟩ :=
    win64_arguments_recovered .empty ⟨[], 0, false⟩ crowded (by decide)
  exact ⟨final, pushed, found⟩

end ForeignCall
