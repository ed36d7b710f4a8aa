import ForeignCall.Proofs.AllOrNothing

/-! Independence of the two classes on System V. Each class has a row of its own and spills when that
row is full, so the arguments of one class decide alone which of them are left over. The stack is the
only place where the classes meet: left-over arguments go there in the order of the calls, and with
arguments of one class only, that is the order of the class. -/
namespace ForeignCall

/-- The arguments of a class, in order. -/
def argumentsOf (kind : RegisterClass) (arguments : List Argument) : List Argument :=
  arguments.filter fun argument => argument.registerClass = kind

@[simp] theorem argumentsOf_nil (kind : RegisterClass) : argumentsOf kind [] = [] := rfl

theorem argumentsOf_cons (kind : RegisterClass) (argument : Argument) (rest : List Argument) :
    argumentsOf kind (argument :: rest) = if argument.registerClass = kind
      then argument :: argumentsOf kind rest else argumentsOf kind rest := by
  simp only [argumentsOf, List.filter_cons, decide_eq_true_eq]

theorem argumentsOf_length_add (arguments : List Argument) :
    (argumentsOf .integer arguments).length + (argumentsOf .float arguments).length =
      arguments.length := by
  have count (kind : RegisterClass) : (argumentsOf kind arguments).length =
      (arguments.map Argument.registerClass).count kind := by
    rw [argumentsOf, ← List.countP_eq_length_filter, List.count, List.countP_map]
    exact List.countP_congr fun argument _ => by simp
  rw [count, count, RegisterClass.count_add_count, List.length_map]

theorem eq_argumentsOf_of_none {kind other : RegisterClass} (differ : other ≠ kind)
    {arguments : List Argument} (none : argumentsOf kind arguments = []) :
    argumentsOf other arguments = arguments := by
  refine List.filter_eq_self.mpr fun argument within => decide_eq_true ?_
  have outside : argument.registerClass ≠ kind := by
    simpa using List.filter_eq_nil_iff.mp none argument within
  revert differ outside
  cases argument.registerClass <;> cases kind <;> cases other <;> simp

def Argument.classed (argument : Argument) : RegisterClass × Word :=
  (argument.registerClass, argument.word)

theorem wordsOfClass_classed (kind : RegisterClass) (arguments : List Argument) :
    wordsOfClass kind (arguments.map Argument.classed) =
      (argumentsOf kind arguments).map Argument.word := by
  rw [wordsOfClass, argumentsOf, List.filter_map, List.map_map]
  rfl

namespace RegisterFile

/-- The arguments that find no register of their class, in order, when they are pushed one after the
other. -/
def leftover (file : RegisterFile) : List Argument → List Argument
  | [] => []
  | argument :: rest =>
    let (placed, later) := file.push argument.registerClass argument.word
    if placed then later.leftover rest else argument :: later.leftover rest

variable {file : RegisterFile}

theorem leftover_of_free {argument : Argument} (rest : List Argument)
    (free : 0 < file.remaining argument.registerClass) : file.leftover (argument :: rest) =
      (file.push argument.registerClass argument.word).2.leftover rest := by
  have placed := (file.push_of_free _ argument.word (Nat.lt_of_sub_pos free)).1
  simp only [leftover, placed, if_true]

theorem leftover_of_full {argument : Argument} (rest : List Argument)
    (full : file.remaining argument.registerClass = 0) :
    file.leftover (argument :: rest) = argument :: file.leftover rest := by
  have refused := file.push_of_full _ argument.word (Nat.sub_eq_zero_iff_le.mp full)
  simp only [leftover, refused]
  rfl

theorem push_remaining (unix : file.platform = .unix) {kind : RegisterClass} (word : Word)
    (free : 0 < file.remaining kind) (other : RegisterClass) :
    (file.push kind word).2.remaining other =
      file.remaining other - if other = kind then 1 else 0 := by
  have used := file.push_used_of_free word (Nat.lt_of_sub_pos free) other
  simp only [unix, reduceCtorEq, false_or] at used
  rw [remaining, remaining, slots_length, slots_length, push_platform, used, Nat.sub_add_eq]

/-- The first arguments of a class go to the registers that are left for it, whatever stands between
them, and the others are left over. -/
theorem argumentsOf_leftover (unix : file.platform = .unix) (kind : RegisterClass)
    (arguments : List Argument) : argumentsOf kind (file.leftover arguments) =
      (argumentsOf kind arguments).drop (file.remaining kind) := by
  induction arguments generalizing file with
  | nil => rw [leftover, argumentsOf_nil, List.drop_nil]
  | cons argument rest ih =>
    by_cases free : 0 < file.remaining argument.registerClass
    · have still := (file.push_platform argument.registerClass argument.word).trans unix
      rw [leftover_of_free rest free, ih still, push_remaining unix argument.word free,
        argumentsOf_cons]
      by_cases own : argument.registerClass = kind
      · obtain ⟨less, same⟩ := Nat.exists_eq_add_one_of_ne_zero (Nat.ne_of_gt (own ▸ free))
        rw [if_pos own, if_pos own.symm, same, List.drop_succ_cons, Nat.add_sub_cancel]
      · rw [if_neg own, if_neg (Ne.symm own), Nat.sub_zero]
    · have full := Nat.eq_zero_of_not_pos free
      rw [leftover_of_full rest full, argumentsOf_cons, argumentsOf_cons, ih unix]
      split
      · next own =>
        rw [← own, full]
        rfl
      · rfl

end RegisterFile

namespace ArgumentStack

/-- Words as stack bytes, one after the other. -/
def appendWords (stack : ArgumentStack) (words : List Word) : ArgumentStack :=
  words.foldl (fun stack word => stack.append word.bytes) stack

theorem appendWords_bytes (stack : ArgumentStack) (words : List Word) :
    (stack.appendWords words).bytes = stack.bytes ++ words.flatMap Word.bytes := by
  induction words generalizing stack with
  | nil => simp [appendWords]
  | cons word rest ih =>
    have later := ih (stack.append word.bytes)
    simpa [appendWords, append] using later

theorem appendWords_length (stack : ArgumentStack) (words : List Word) :
    (stack.appendWords words).bytes.length = stack.bytes.length + 8 * words.length := by
  rw [appendWords_bytes, List.length_append, List.length_flatMap]
  simp [Nat.mul_comm]

theorem appendWords_grown (stack : ArgumentStack) (words : List Word) :
    (stack.appendWords words).room = stack.room ∧
    ((stack.appendWords words).grown ↔ stack.grown ∨
      0 < words.length ∧ stack.room < stack.bytes.length + 8 * words.length) := by
  induction words generalizing stack with
  | nil => simp [appendWords]
  | cons word rest ih =>
    obtain ⟨room, grown⟩ := ih (stack.append word.bytes)
    refine ⟨room, grown.trans ?_⟩
    simp only [append, List.length_append, Word.bytes_length, Bool.or_eq_true, decide_eq_true_eq,
      List.length_cons]
    rw [or_assoc]
    refine or_congr_right ?_
    omega

theorem appendWords_shape (stack : ArgumentStack) {words others : List Word}
    (count : words.length = others.length) :
    (stack.appendWords words).bytes.length = (stack.appendWords others).bytes.length ∧
    (stack.appendWords words).room = (stack.appendWords others).room ∧
    (stack.appendWords words).grown = (stack.appendWords others).grown := by
  obtain ⟨room, grown⟩ := stack.appendWords_grown words
  obtain ⟨otherRoom, otherGrown⟩ := stack.appendWords_grown others
  refine ⟨?_, room.trans otherRoom.symm, Bool.eq_iff_iff.mpr ?_⟩
  · rw [appendWords_length, appendWords_length, count]
  · rw [grown, otherGrown, count]

end ArgumentStack

namespace ArgumentArea

theorem after_pushes (area : ArgumentArea) (arguments : List Argument) :
    area.after (arguments.map (.push .sysv)) =
      ⟨area.registers.pushAll (arguments.map Argument.classed),
        area.stack.appendWords ((area.registers.leftover arguments).map Argument.word)⟩ := by
  induction arguments generalizing area with
  | nil => rfl
  | cons argument rest ih =>
    show (area.pushGeneral argument).state.after (rest.map (.push .sysv)) = _
    rw [ih]
    by_cases free : 0 < area.registers.remaining argument.registerClass
    · rw [area.pushGeneral_of_free argument (Nat.lt_of_sub_pos free),
        RegisterFile.leftover_of_free rest free]
      rfl
    · have full := Nat.eq_zero_of_not_pos free
      have inside := Nat.sub_eq_zero_iff_le.mp full
      rw [area.pushGeneral_of_full argument inside, RegisterFile.leftover_of_full rest full,
        List.map_cons, RegisterFile.pushAll, Argument.classed,
        area.registers.push_of_full _ argument.word inside]
      rfl

end ArgumentArea

/-- System V arguments of one class are no business of the other. Two lists of scalars that agree in
the arguments of either class leave the same registers, with the same counters, and stacks of the same
length. The stacks end in the words of what is left over: of each class, the same arguments in the
same order, namely those beyond its registers. If one class has no such arguments, the two areas are
the same altogether. -/
theorem classes_are_independent {area : ArgumentArea} (unix : area.registers.platform = .unix)
    {first second : List Argument}
    (same : ∀ kind, argumentsOf kind first = argumentsOf kind second) :
    let run (arguments : List Argument) := area.after (arguments.map (.push .sysv))
    let left (arguments : List Argument) := area.registers.leftover arguments
    (run first).registers = (run second).registers ∧
    ((run first).stack.bytes.length = (run second).stack.bytes.length ∧
      (run first).stack.room = (run second).stack.room ∧
      (run first).stack.grown = (run second).stack.grown) ∧
    ((∃ kind, (argumentsOf kind first).length ≤ area.registers.remaining kind) →
      run first = run second) ∧
    (∀ arguments, (run arguments).stack.bytes =
      area.stack.bytes ++ (left arguments).flatMap fun argument => argument.word.bytes) ∧
    ∀ kind, argumentsOf kind (left first) = argumentsOf kind (left second) ∧
      argumentsOf kind (left first) =
        (argumentsOf kind first).drop (area.registers.remaining kind) := by
  intro run left
  have split (arguments : List Argument) (kind : RegisterClass) :
      argumentsOf kind (left arguments) =
        (argumentsOf kind arguments).drop (area.registers.remaining kind) :=
    RegisterFile.argumentsOf_leftover unix kind arguments
  have spilled (kind : RegisterClass) :
      argumentsOf kind (left first) = argumentsOf kind (left second) := by
    rw [split, split, same]
  have count : (left first).length = (left second).length := by
    rw [← argumentsOf_length_add (left first), ← argumentsOf_length_add (left second), spilled,
      spilled]
  have registers : area.registers.pushAll (first.map Argument.classed) =
      area.registers.pushAll (second.map Argument.classed) := by
    cases kept : area.registers with
    | shared row =>
      rw [kept] at unix
      cases unix
    | separate integers floats =>
      simp only [RegisterFile.pushAll_separate, wordsOfClass_classed, same]
  have after (arguments : List Argument) : run arguments = _ := area.after_pushes arguments
  refine ⟨?_, ?_, ?_, fun arguments => ?_, fun kind => ⟨spilled kind, split first kind⟩⟩
  · rw [after, after]
    exact registers
  · rw [after, after]
    exact area.stack.appendWords_shape (by rw [List.length_map, List.length_map, count])
  · rintro ⟨kind, fits⟩
    -- Nothing of the class is left over, and so the order of the other is the whole order.
    obtain ⟨other, differ⟩ : ∃ other, other ≠ kind := by
      cases kind
      · exact ⟨.float, nofun⟩
      · exact ⟨.integer, nofun⟩
    have none : argumentsOf kind (left first) = [] := by
      rw [split]
      exact List.drop_of_length_le fits
    have order : left first = left second := by
      rw [← eq_argumentsOf_of_none differ none, spilled,
        eq_argumentsOf_of_none differ ((spilled kind).symm.trans none)]
    have tails : area.stack.appendWords ((left first).map Argument.word) =
        area.stack.appendWords ((left second).map Argument.word) := by rw [order]
    rw [after, after, registers]
    exact congrArg (ArgumentArea.mk _) tails
  · rw [after, ArgumentStack.appendWords_bytes, List.flatMap_map]

/-- One register of each class is left, and room for one word on the stack. -/
def nearlyFullArea : ArgumentArea :=
  ArgumentArea.after ⟨.empty .unix, ⟨[], 8, false⟩⟩
    (List.replicate 5 (.push .sysv (.int 9)) ++ List.replicate 7 (.push .sysv (.double 9)))

def mingledArguments : List Argument :=
  [.int 1, .double 2, .long 3, .float 4, .pointer 5]

def sortedArguments : List Argument :=
  [.double 2, .float 4, .int 1, .long 3, .pointer 5]

/-- The order shows on the stack, and there only. -/
theorem sorting_changes_the_stack :
    nearlyFullArea.registers.platform = .unix ∧
    (∀ kind, argumentsOf kind mingledArguments = argumentsOf kind sortedArguments) ∧
    (let run (arguments : List Argument) := nearlyFullArea.after (arguments.map (.push .sysv))
    (run mingledArguments).registers = (run sortedArguments).registers ∧
      (run mingledArguments).stack.bytes.length = (run sortedArguments).stack.bytes.length ∧
      (run mingledArguments).stack.bytes = [3, 4, 5].flatMap Word.bytes ∧
      (run sortedArguments).stack.bytes = [4, 3, 5].flatMap Word.bytes) := by
  have unix : nearlyFullArea.registers.platform = .unix := rfl
  have same : ∀ kind, argumentsOf kind mingledArguments = argumentsOf kind sortedArguments := by
    intro kind
    cases kind <;> rfl
  obtain ⟨registers, ⟨lengths, -⟩, -, bytes, -⟩ := classes_are_independent unix same
  exact ⟨unix, same, registers, lengths, bytes mingledArguments, bytes sortedArguments⟩

end ForeignCall
