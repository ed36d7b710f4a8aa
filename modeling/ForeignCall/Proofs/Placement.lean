import ForeignCall.Proofs.Reading

/-! Placement and reading agree. Whatever is pushed for an ordinary call is found again, in order,
by a reader that counts slots as the convention says, and the reader ends where the pushes ended. -/
namespace ForeignCall

theorem stackBlock_of_prefix {passed block stack : List Byte}
    (there : passed ++ block <+: stack) :
    stackBlock stack passed.length block.length = some block := by
  obtain ⟨rest, rfl⟩ := there
  have fits : passed.length + block.length ≤ (passed ++ block ++ rest).length := by
    simp only [List.length_append]
    omega
  rw [stackBlock, if_pos fits, List.append_assoc, List.drop_left, List.take_left]

namespace SlotRule

variable {rule : SlotRule κ}

/-- The counters agree with a register file. -/
structure Counts (rule : SlotRule κ) (counters : κ) (file : RegisterFile) : Prop where
  taken : ∀ kind, rule.taken counters kind = file.used kind
  budget : ∀ kind, rule.budget kind = (file.slots kind).length

/-- There are slots for words of these classes, one after the other. -/
def Admits (rule : SlotRule κ) : κ → List RegisterClass → Prop
  | _, [] => True
  | counters, kind :: rest =>
    rule.taken counters kind < rule.budget kind ∧ rule.Admits (rule.take counters kind) rest

/-- What a rule must get right about register files: a push into a free slot is counted, and no
aggregate is granted registers that are not there. -/
structure Faithful (rule : SlotRule κ) : Prop where
  push : ∀ {counters file} kind word, rule.Counts counters file →
    file.used kind < (file.slots kind).length →
    rule.Counts (rule.take counters kind) (file.push kind word).2
  admits : ∀ counters layout,
    rule.Admits counters (rule.classifier.granted (rule.left counters) layout)

theorem Counts.free {counters : κ} {file : RegisterFile} (counts : rule.Counts counters file)
    (kind : RegisterClass) : rule.taken counters kind < rule.budget kind ↔
      file.used kind < (file.slots kind).length := by
  rw [counts.taken, counts.budget]

theorem Counts.left {counters : κ} {file : RegisterFile} (counts : rule.Counts counters file) :
    rule.left counters = file.remaining := by
  funext kind
  rw [SlotRule.left, counts.taken, counts.budget, RegisterFile.remaining]

theorem readSlot_push {counters : κ} {file later : RegisterFile} {kind : RegisterClass}
    {word : Word} (counts : rule.Counts counters file)
    (free : file.used kind < (file.slots kind).length)
    (growth : (file.push kind word).2.Extends later) :
    rule.readSlot later.slots kind counters = some (word, rule.take counters kind) := by
  obtain ⟨_, used, placed⟩ := file.push_of_free kind word free
  have kept := growth.slot (by omega) placed
  rw [readSlot, if_pos ((counts.free kind).mpr free), counts.taken, kept, Option.map_some]

theorem readSlots_pushAll (faithful : rule.Faithful) {counters : κ} {file later : RegisterFile}
    {kinds : List RegisterClass} {words : List Word} (counts : rule.Counts counters file)
    (admits : rule.Admits counters kinds) (lengths : words.length = kinds.length)
    (growth : (file.pushAll (kinds.zip words)).Extends later) :
    ∃ ending, rule.readSlots later.slots kinds counters = some (words, ending) ∧
      rule.Counts ending (file.pushAll (kinds.zip words)) := by
  induction kinds generalizing counters file words with
  | nil =>
    rw [List.eq_nil_of_length_eq_zero lengths]
    exact ⟨counters, rfl, counts⟩
  | cons kind rest ih =>
    obtain ⟨word, words, rfl⟩ := List.exists_cons_of_length_eq_add_one lengths
    have free := (counts.free kind).mp admits.1
    have next := faithful.push kind word counts free
    rw [List.zip_cons_cons, RegisterFile.pushAll] at growth ⊢
    obtain ⟨ending, found, agree⟩ :=
      ih next admits.2 (Nat.succ.inj lengths) growth
    have first := readSlot_push counts free ((RegisterFile.pushAll_extends _ _).trans growth)
    refine ⟨ending, ?_, agree⟩
    simp only [readSlots, first, found, Option.bind_eq_bind, Option.bind_some]
    rfl

/-- A reader stands where pushing stands: its counters agree, and it has passed all stack bytes. -/
structure At (rule : SlotRule κ) (cursor : Cursor κ) (area : ArgumentArea) : Prop where
  counts : rule.Counts cursor.counters area.registers
  offset : cursor.offset = area.stack.bytes.length

theorem readScalar_push (faithful : rule.Faithful) {cursor : Cursor κ} {area later : ArgumentArea}
    (value : Argument) (here : rule.At cursor area)
    (growth : (area.pushGeneral value).state.Extends later) :
    ∃ ending, rule.readScalar later.registers.slots later.stack.bytes value.type cursor =
        some (.scalar value, ending) ∧ rule.At ending (area.pushGeneral value).state := by
  have decoded := Argument.ofWord?_eq_some_iff.mpr ⟨rfl, (rfl : value.word = value.word)⟩
  by_cases free : area.registers.used value.type.registerClass <
      (area.registers.slots value.type.registerClass).length
  · rw [area.pushGeneral_of_free value free] at growth ⊢
    have found := readSlot_push here.counts free growth.registers
    refine ⟨⟨_, cursor.offset⟩, ?_, faithful.push _ _ here.counts free, here.offset⟩
    rw [readScalar, if_pos ((here.counts.free _).mpr free)]
    simp only [found, decoded, Option.bind_eq_bind, Option.bind_some]
    rfl
  · rw [area.pushGeneral_of_full value (Nat.not_lt.mp free)] at growth ⊢
    have found := stackBlock_of_prefix growth.stack
    rw [← here.offset, Word.bytes_length] at found
    refine ⟨⟨cursor.counters, cursor.offset + slotBytes⟩, ?_, here.counts, ?_⟩
    · rw [readScalar, if_neg (mt (here.counts.free _).mp free)]
      simp only [slotBytes, found, Word.ofBytes_bytes, decoded, Option.bind_eq_bind,
        Option.bind_some]
      rfl
    · simp [ArgumentStack.append, here.offset, slotBytes]

theorem readStruct_push (faithful : rule.Faithful) {cursor : Cursor κ} {area later : ArgumentArea}
    {layout : Layout} {data : List Byte} (exact : data.length = layout.size)
    (here : rule.At cursor area)
    (growth : (area.pushAggregate rule.classifier layout data).state.Extends later) :
    ∃ ending, rule.readStruct later.registers.slots later.stack.bytes layout cursor =
        some (.struct layout data, ending) ∧
      rule.At ending (area.pushAggregate rule.classifier layout data).state := by
  rw [(area.pushAggregate_granted rule.classifier layout data exact).2] at growth ⊢
  have copied := stackBlock_of_prefix growth.stack
  rw [← here.offset, exact] at copied
  have admits := faithful.admits cursor.counters layout
  rw [here.counts.left] at admits
  by_cases none : rule.classifier.granted area.registers.remaining layout = []
  · simp only [none, List.zip_nil_left, RegisterFile.pushAll]
    refine ⟨⟨cursor.counters, cursor.offset + layout.size⟩, ?_, here.counts, ?_⟩
    · simp [readStruct, copied, here.counts.left, none, readSlots]
    · simp [ArgumentStack.append, here.offset, exact]
  · have lengths : (wordsOf data).length =
        (rule.classifier.granted area.registers.remaining layout).length := by
      rw [wordsOf_length, exact, (rule.classifier.granted_length _ layout none).2]
    obtain ⟨counters, found, agree⟩ :=
      readSlots_pushAll faithful here.counts admits lengths growth.registers
    refine ⟨⟨counters, cursor.offset + layout.size⟩, ?_, agree, ?_⟩
    · simp only [readStruct, copied, here.counts.left, found, Option.bind_eq_bind,
        Option.bind_some]
      rw [if_pos (.inr (wordsOf_bytes data))]
      rfl
    · simp [ArgumentStack.append, here.offset, exact]

end SlotRule

namespace ArgumentArea

variable {scheme : Scheme} {classifier : Classifier}

theorem pushArgument_scalar (general : scheme.classifier? = some classifier) (area : ArgumentArea)
    (value : Argument) : area.pushArgument scheme (.scalar value) = area.pushGeneral value := by
  cases scheme with
  | sysv | win64 => rfl
  | syscall => cases general

theorem pushArgument_struct (general : scheme.classifier? = some classifier) (area : ArgumentArea)
    (layout : Layout) (data : List Byte) : area.pushArgument scheme (.struct layout data) =
      area.pushAggregate classifier layout data := by
  rw [pushArgument, pushStruct, general]

theorem pushArgument_ok (general : scheme.classifier? = some classifier) (area : ArgumentArea)
    {argument : CallArgument} (exact : argument.Exact) :
    (area.pushArgument scheme argument).result = .ok () := by
  cases argument with
  | scalar value =>
    rw [pushArgument_scalar general]
    exact area.pushGeneral_result value
  | struct layout data =>
    rw [pushArgument_struct general]
    exact (area.pushAggregate_granted classifier layout data exact).1

theorem pushArguments_cons (general : scheme.classifier? = some classifier) (area : ArgumentArea)
    {argument : CallArgument} (exact : argument.Exact) (rest : List CallArgument) :
    area.pushArguments scheme (argument :: rest) =
      (area.pushArgument scheme argument).state.pushArguments scheme rest := by
  simp only [pushArguments, area.pushArgument_ok general exact]

theorem pushArguments_append (area : ArgumentArea) (scheme : Scheme)
    (before after : List CallArgument) : area.pushArguments scheme (before ++ after) =
      (area.pushArguments scheme before).bind (·.pushArguments scheme after) := by
  induction before generalizing area with
  | nil => rfl
  | cons argument rest ih =>
    simp only [List.cons_append, pushArguments]
    split
    · exact ih _
    · rfl

theorem pushArguments_ok (general : scheme.classifier? = some classifier) (area : ArgumentArea)
    {arguments : List CallArgument} (exact : ∀ argument ∈ arguments, argument.Exact) :
    ∃ final, area.pushArguments scheme arguments = .ok final := by
  induction arguments generalizing area with
  | nil => exact ⟨area, rfl⟩
  | cons argument rest ih =>
    rw [area.pushArguments_cons general (exact argument List.mem_cons_self)]
    exact ih _ fun other member => exact other (List.mem_cons_of_mem _ member)

/-- With every slot filled, an argument goes to the stack and nowhere else. -/
theorem pushArgument_of_full (general : scheme.classifier? = some classifier)
    (area : ArgumentArea) {argument : CallArgument} (exact : argument.Exact)
    (full : ∀ kind, area.registers.remaining kind = 0) :
    (area.pushArgument scheme argument).state =
      ⟨area.registers, area.stack.append argument.stackBytes⟩ := by
  cases argument with
  | scalar value =>
    rw [pushArgument_scalar general,
      area.pushGeneral_of_full value (Nat.sub_eq_zero_iff_le.mp (full _))]
    rfl
  | struct layout data =>
    rw [pushArgument_struct general, (area.pushAggregate_granted classifier layout data exact).2,
      classifier.granted_of_full full layout]
    rfl

theorem pushArguments_of_full (general : scheme.classifier? = some classifier)
    {area final : ArgumentArea} {arguments : List CallArgument}
    (exact : ∀ argument ∈ arguments, argument.Exact)
    (full : ∀ kind, area.registers.remaining kind = 0)
    (pushed : area.pushArguments scheme arguments = .ok final) :
    final.registers = area.registers ∧
      final.stack.bytes = area.stack.bytes ++ arguments.flatMap CallArgument.stackBytes := by
  induction arguments generalizing area with
  | nil =>
    cases pushed
    exact ⟨rfl, by simp⟩
  | cons argument rest ih =>
    have own := exact argument List.mem_cons_self
    rw [area.pushArguments_cons general own, area.pushArgument_of_full general own full] at pushed
    obtain ⟨registers, stack⟩ :=
      ih (fun other member => exact other (List.mem_cons_of_mem _ member)) (by exact full) pushed
    refine ⟨registers, ?_⟩
    rw [stack, List.flatMap_cons, ← List.append_assoc]
    rfl

theorem pushArgument_extends (area : ArgumentArea) (scheme : Scheme) (argument : CallArgument) :
    area.Extends (area.pushArgument scheme argument).state := by
  cases argument with
  | scalar value => exact area.push_extends scheme value
  | struct layout data => exact area.pushStruct_extends scheme layout data

theorem pushArguments_extends {area final : ArgumentArea} {arguments : List CallArgument}
    (pushed : area.pushArguments scheme arguments = .ok final) : area.Extends final := by
  induction arguments generalizing area with
  | nil =>
    cases pushed
    exact .refl _
  | cons argument rest ih =>
    simp only [pushArguments] at pushed
    split at pushed
    · exact (area.pushArgument_extends scheme argument).trans (ih pushed)
    · cases pushed

end ArgumentArea

namespace SlotRule

variable {rule : SlotRule κ} {scheme : Scheme}

theorem readParameter_push (faithful : rule.Faithful)
    (general : scheme.classifier? = some rule.classifier) {cursor : Cursor κ}
    {area later : ArgumentArea} {argument : CallArgument} (exact : argument.Exact)
    (here : rule.At cursor area) (growth : (area.pushArgument scheme argument).state.Extends later) :
    ∃ ending, rule.readParameter later.registers.slots later.stack.bytes argument.parameter cursor =
        some (argument, ending) ∧ rule.At ending (area.pushArgument scheme argument).state := by
  cases argument with
  | scalar value =>
    rw [ArgumentArea.pushArgument_scalar general] at growth ⊢
    exact readScalar_push faithful value here growth
  | struct layout data =>
    rw [ArgumentArea.pushArgument_struct general] at growth ⊢
    exact readStruct_push faithful exact here growth

theorem read_pushArguments (faithful : rule.Faithful)
    (general : scheme.classifier? = some rule.classifier) {cursor : Cursor κ}
    {area final : ArgumentArea} {arguments : List CallArgument}
    (exact : ∀ argument ∈ arguments, argument.Exact) (here : rule.At cursor area)
    (pushed : area.pushArguments scheme arguments = .ok final) :
    ∃ ending, rule.read final.registers.slots final.stack.bytes
        (arguments.map CallArgument.parameter) cursor = some (arguments, ending) ∧
      rule.At ending final := by
  -- The reader moves along with the pushes, but it reads the final area, which extends each of them.
  induction arguments generalizing cursor area with
  | nil =>
    cases pushed
    exact ⟨cursor, rfl, here⟩
  | cons argument rest ih =>
    have own := exact argument List.mem_cons_self
    rw [area.pushArguments_cons general own] at pushed
    obtain ⟨middle, first, there⟩ := readParameter_push faithful general own here
      (ArgumentArea.pushArguments_extends pushed)
    obtain ⟨ending, others, arrived⟩ :=
      ih (fun other member => exact other (List.mem_cons_of_mem _ member)) there pushed
    refine ⟨ending, ?_, arrived⟩
    simp only [List.map_cons, read, first, others, Option.bind_eq_bind, Option.bind_some]
    rfl

end SlotRule
end ForeignCall
