import ForeignCall.ArgumentArea

/-! Growth. A push fills further slots and appends further stack bytes; what earlier pushes left in
either place stays there until a reset. `Extends` is that relation, for a row of slots, a register
file and a whole argument area, and follows from `Adds`: words were pushed and bytes appended. -/
namespace ForeignCall

/-- More slots are filled, and the slots outside of the newly filled ones hold what they held. -/
structure SlotRow.Extends (earlier later : SlotRow n) : Prop where
  used : earlier.used ≤ later.used
  kept : ∀ i, i < earlier.used ∨ later.used ≤ i →
    later.slots.toList[i]? = earlier.slots.toList[i]?

theorem SlotRow.Extends.refl (row : SlotRow n) : row.Extends row :=
  ⟨Nat.le_refl _, fun _ _ => rfl⟩

theorem SlotRow.push_extends (row : SlotRow n) (word : Word) : row.Extends (row.push word).2 := by
  by_cases free : row.used < n
  · rw [push_of_free free]
    refine ⟨Nat.le_succ _, fun i outside => ?_⟩
    have other : row.used ≠ i := by
      simp only at outside
      omega
    simp only [Vector.toList_set, List.getElem?_set_ne other]
  · rw [push_of_full (Nat.not_lt.mp free)]
    exact .refl row

namespace RegisterFile

structure Extends (earlier later : RegisterFile) : Prop where
  used : ∀ kind, earlier.used kind ≤ later.used kind
  kept : ∀ kind i, i < earlier.used kind ∨ later.used kind ≤ i →
    (later.slots kind)[i]? = (earlier.slots kind)[i]?

theorem Extends.refl (file : RegisterFile) : file.Extends file :=
  ⟨fun _ => Nat.le_refl _, fun _ _ _ => rfl⟩

theorem Extends.trans {first second third : RegisterFile} (early : first.Extends second)
    (late : second.Extends third) : first.Extends third := by
  refine ⟨fun kind => Nat.le_trans (early.used kind) (late.used kind), fun kind i outside => ?_⟩
  have := early.used kind
  have := late.used kind
  rw [late.kept kind i (by omega), early.kept kind i (by omega)]

/-- A filled slot reads the same in every extension. -/
theorem Extends.slot {earlier later : RegisterFile} (growth : earlier.Extends later)
    {kind : RegisterClass} {i : Nat} {word : Word} (filled : i < earlier.used kind)
    (holds : (earlier.slots kind)[i]? = some word) : (later.slots kind)[i]? = some word :=
  (growth.kept kind i (.inl filled)).trans holds

@[simp] theorem push_integer (integers floats) (word : Word) :
    (separate integers floats).push .integer word =
      ((integers.push word).1, separate (integers.push word).2 floats) := rfl

@[simp] theorem push_float (integers floats) (word : Word) :
    (separate integers floats).push .float word =
      ((floats.push word).1, separate integers (floats.push word).2) := rfl

@[simp] theorem push_shared (row) (kind : RegisterClass) (word : Word) :
    (shared row).push kind word = ((row.push word).1, shared (row.push word).2) := by
  cases kind <;> rfl

theorem push_extends (file : RegisterFile) (kind : RegisterClass) (word : Word) :
    file.Extends (file.push kind word).2 := by
  cases file with
  | separate integers floats =>
    cases kind with
    | integer =>
      have growth := integers.push_extends word
      rw [push_integer]
      refine ⟨fun kind => ?_, fun kind => ?_⟩ <;> cases kind
      · exact growth.used
      · exact Nat.le_refl _
      · exact growth.kept
      · exact fun _ _ => rfl
    | float =>
      have growth := floats.push_extends word
      rw [push_float]
      refine ⟨fun kind => ?_, fun kind => ?_⟩ <;> cases kind
      · exact Nat.le_refl _
      · exact growth.used
      · exact fun _ _ => rfl
      · exact growth.kept
  | shared row =>
    have growth := row.push_extends word
    rw [push_shared]
    refine ⟨fun kind => ?_, fun kind => ?_⟩
    · cases kind <;> exact growth.used
    · cases kind <;> exact growth.kept

theorem push_of_free (file : RegisterFile) (kind : RegisterClass) (word : Word)
    (free : file.used kind < (file.slots kind).length) :
    (file.push kind word).1 = true ∧ (file.push kind word).2.used kind = file.used kind + 1 ∧
      ((file.push kind word).2.slots kind)[file.used kind]? = some word := by
  cases file with
  | separate integers floats =>
    cases kind <;> simp only [used, slots, Vector.length_toList] at free
    · simp [SlotRow.push_of_free free, used, slots, free]
    · simp [SlotRow.push_of_free free, used, slots, free]
  | shared row =>
    have room : row.used < sharedSlots := by
      cases kind <;> simpa only [used, slots, Vector.length_toList] using free
    cases kind <;> simp [SlotRow.push_of_free room, used, slots, room]

theorem push_of_full (file : RegisterFile) (kind : RegisterClass) (word : Word)
    (full : (file.slots kind).length ≤ file.used kind) : file.push kind word = (false, file) := by
  cases file with
  | separate integers floats =>
    cases kind <;> simp only [used, slots, Vector.length_toList] at full
    · rw [push_integer, SlotRow.push_of_full full]
    · rw [push_float, SlotRow.push_of_full full]
  | shared row =>
    have spent : sharedSlots ≤ row.used := by
      cases kind <;> simpa only [used, slots, Vector.length_toList] using full
    rw [push_shared, SlotRow.push_of_full spent]

theorem pushAll_extends (file : RegisterFile) (words : List (RegisterClass × Word)) :
    file.Extends (file.pushAll words) := by
  induction words generalizing file with
  | nil => exact .refl file
  | cons head rest ih => exact (file.push_extends head.1 head.2).trans (ih _)

/-- All that a classifier does to registers is to push words. -/
theorem classify_pushAll (file : RegisterFile) (classifier : Classifier) (layout : Layout)
    (data : List Byte) :
    ∃ words, (file.classify classifier layout data).state = file.pushAll words := by
  cases classifier with
  | sysv =>
    simp only [classify, classifySysV]
    repeat' split
    all_goals first | exact ⟨[], rfl⟩ | exact ⟨_, rfl⟩
  | win64 =>
    simp only [classify, classifyWin64]
    repeat' split
    all_goals first | exact ⟨[], rfl⟩ | exact ⟨[(.integer, _)], rfl⟩

end RegisterFile

namespace ArgumentArea

structure Extends (earlier later : ArgumentArea) : Prop where
  registers : earlier.registers.Extends later.registers
  stack : earlier.stack.bytes <+: later.stack.bytes

theorem Extends.refl (area : ArgumentArea) : area.Extends area :=
  ⟨.refl _, List.prefix_refl _⟩

theorem Extends.trans {first second third : ArgumentArea} (early : first.Extends second)
    (late : second.Extends third) : first.Extends third :=
  ⟨early.registers.trans late.registers, early.stack.trans late.stack⟩

theorem pushGeneral_of_free (area : ArgumentArea) (argument : Argument)
    (free : area.registers.used argument.registerClass <
      (area.registers.slots argument.registerClass).length) :
    area.pushGeneral argument = .quiet
      ⟨(area.registers.push argument.registerClass argument.word).2, area.stack⟩ (.ok ()) := by
  have placed := (area.registers.push_of_free _ argument.word free).1
  rw [pushGeneral]
  simp only [placed, if_true]

theorem pushGeneral_of_full (area : ArgumentArea) (argument : Argument)
    (full : (area.registers.slots argument.registerClass).length ≤
      area.registers.used argument.registerClass) :
    area.pushGeneral argument = ⟨.ok (), [spillRecord argument.registerClass],
      ⟨area.registers, area.stack.append argument.word.bytes⟩⟩ := by
  rw [pushGeneral, area.registers.push_of_full _ argument.word full]
  rfl

theorem pushGeneral_result (area : ArgumentArea) (argument : Argument) :
    (area.pushGeneral argument).result = .ok () := by
  unfold pushGeneral
  dsimp only
  split <;> rfl

/-- Some words have been pushed, and some bytes appended. -/
def Adds (earlier later : ArgumentArea) : Prop :=
  ∃ words bytes, later.registers = earlier.registers.pushAll words ∧
    later.stack.bytes = earlier.stack.bytes ++ bytes

theorem Adds.extends {earlier later : ArgumentArea} (adds : earlier.Adds later) :
    earlier.Extends later := by
  obtain ⟨words, bytes, registers, stack⟩ := adds
  exact ⟨registers ▸ earlier.registers.pushAll_extends words, stack ▸ List.prefix_append _ _⟩

theorem adds_words (area : ArgumentArea) (words : List (RegisterClass × Word)) :
    area.Adds ⟨area.registers.pushAll words, area.stack⟩ :=
  ⟨words, [], rfl, (List.append_nil _).symm⟩

theorem push_adds (area : ArgumentArea) (scheme : Scheme) (argument : Argument) :
    area.Adds (area.push scheme argument).state := by
  have general : area.Adds (area.pushGeneral argument).state := by
    unfold pushGeneral
    dsimp only
    split
    · exact area.adds_words [(argument.registerClass, argument.word)]
    · exact ⟨[(argument.registerClass, argument.word)], argument.word.bytes, rfl, rfl⟩
  have system : area.Adds (area.pushSystem argument).state := by
    unfold pushSystem
    split
    · exact area.adds_words [(.integer, argument.word)]
    · exact area.adds_words []
  cases scheme with
  | sysv => exact general
  | win64 => exact general
  | syscall => exact system

theorem pushStruct_adds (area : ArgumentArea) (scheme : Scheme) (layout : Layout)
    (data : List Byte) : area.Adds (area.pushStruct scheme layout data).state := by
  unfold pushStruct
  split
  · next classifier _ =>
    obtain ⟨words, placed⟩ := area.registers.classify_pushAll classifier layout data
    unfold pushAggregate
    repeat' split
    · exact ⟨words, data, placed, rfl⟩
    · exact ⟨[], data, rfl, rfl⟩
    · exact area.adds_words []
  · exact area.adds_words []

theorem push_extends (area : ArgumentArea) (scheme : Scheme) (argument : Argument) :
    area.Extends (area.push scheme argument).state :=
  (area.push_adds scheme argument).extends

theorem pushStruct_extends (area : ArgumentArea) (scheme : Scheme) (layout : Layout)
    (data : List Byte) : area.Extends (area.pushStruct scheme layout data).state :=
  (area.pushStruct_adds scheme layout data).extends

end ArgumentArea
end ForeignCall
