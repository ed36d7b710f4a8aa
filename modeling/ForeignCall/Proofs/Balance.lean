import Mathlib.Algebra.BigOperators.Group.List.Basic
import Mathlib.Algebra.GroupWithZero.Nat
import Mathlib.Data.List.DropRight
import ForeignCall.Proofs.AllOrNothing
import ForeignCall.Proofs.Course
import ForeignCall.Proofs.Refusal

/-! The books of a context. Every argument that was taken is in registers or on the stack, and whatever
did not find a register was reported. So counters and stack follow from what was pushed and what was
reported since the last reset: one step balances, and balances add up. -/
namespace ForeignCall

namespace Record

/-- Registers of a class that an aggregate was unrolled into. -/
def unrolledTo (kind : RegisterClass) : Record → Nat
  | .unrolled integers floats =>
    match kind with
    | .integer => integers
    | .float => floats
  | _ => 0

def isInRegister : Record → Bool
  | .inRegister _ => true
  | _ => false

def isSpill : Record → Bool
  | .integerSpilled | .floatSpilled => true
  | _ => false

/-- A report that is not about any argument. -/
structure Neutral (record : Record) : Prop where
  spill : record.isSpill = false
  inRegister : record.isInRegister = false
  unrolled : ∀ kind, record.unrolledTo kind = 0

theorem switched_neutral (convention : Convention) (scheme : Scheme) :
    (switched convention scheme).Neutral :=
  ⟨rfl, rfl, fun _ => rfl⟩

theorem selectionFailed_neutral (error : SelectionError) : (selectionFailed error).Neutral :=
  ⟨rfl, rfl, fun _ => rfl⟩

end Record

theorem ArgumentArea.spillRecord_isSpill (kind : RegisterClass) :
    (spillRecord kind).isSpill = true := by
  cases kind <;> rfl

namespace RegisterFile

variable {layout : Layout} {data : List Byte}

theorem granted_used_on_unix {file : RegisterFile} (sound : Sound .unix file)
    (exact : data.length = layout.size) (kind : RegisterClass) :
    (file.classify .sysv layout data).state.used kind =
      file.used kind + (Classifier.sysv.granted file.remaining layout).count kind := by
  rw [classify_sysv_state file exact]
  rcases Classifier.granted_sysv_cases file.remaining layout with
    none | ⟨whole, -, -, -, integers, floats⟩
  · rw [none]
    rfl
  cases file with
  | shared row => cases sound.serves
  | separate ints singles =>
    rw [whole, pushAll_separate]
    simp only [remaining, slots, used, Vector.length_toList] at integers floats
    have lengths (kind : RegisterClass) := wordsOfClass_length kind (wordsOf_length_eq exact)
    cases kind with
    | integer =>
      show (ints.pushAll _).used = _
      rw [SlotRow.pushAll_used, lengths, Nat.min_eq_right integers]
      rfl
    | float =>
      show (singles.pushAll _).used = _
      rw [SlotRow.pushAll_used, lengths, Nat.min_eq_right floats]
      rfl

/-- System V reports once, and it reports the registers that were filled. -/
theorem classifySysV_reports (file : RegisterFile) (exact : data.length = layout.size) :
    ∃ record, (file.classifySysV layout data).records = [record] ∧ record.isSpill = false ∧
      ∀ kind, record.unrolledTo kind =
        (Classifier.sysv.granted file.remaining layout).count kind := by
  rw [file.classifySysV_eq (Nat.le_of_eq exact.symm)]
  simp only [Classifier.granted]
  split
  · next size =>
    rw [if_neg fun fits => by omega]
    exact ⟨_, rfl, rfl, fun _ => rfl⟩
  split
  · next aligned =>
    split
    · next short =>
      rw [if_neg fun fits => by omega]
      exact ⟨_, rfl, rfl, fun _ => rfl⟩
    · next room =>
      rw [if_pos ⟨by omega, by omega, aligned, by omega, by omega⟩]
      exact ⟨_, rfl, rfl, fun kind => by cases kind <;> rfl⟩
  · next unaligned =>
    rw [if_neg fun fits => unaligned fits.2.2.1]
    exact ⟨_, rfl, rfl, fun _ => rfl⟩

theorem classifyWin64_reports {file : RegisterFile} (sound : Sound .windows file)
    (exact : data.length = layout.size) (kind : RegisterClass) :
    (file.classifyWin64 layout data).state.used kind = file.used kind +
        (file.classifyWin64 layout data).records.countP Record.isInRegister ∧
      ∀ record ∈ (file.classifyWin64 layout data).records, record.isSpill = false := by
  unfold classifyWin64
  rw [aggregateBytes_of_le (Nat.le_of_eq exact.symm)]
  by_cases fits : Classifier.fitsRegister layout.size
  · rw [if_pos fits]
    by_cases free : file.used .integer < (file.slots .integer).length
    · have counted := file.push_used_of_free (Word.ofBytes (data.take layout.size)) free kind
      rw [if_pos (.inl sound.serves)] at counted
      simp only [(file.push_of_free .integer _ free).1, if_true]
      exact ⟨counted, by simp [Record.isSpill]⟩
    · simp only [file.push_of_full .integer _ (Nat.not_lt.mp free)]
      exact ⟨rfl, by simp⟩
  · rw [if_neg fits]
    exact ⟨rfl, by simp [Record.isSpill]⟩

/-- The reports on an aggregate account for the registers it took, under the platform's own rule. -/
theorem classify_reports {platform : Platform} {classifier : Classifier} {file : RegisterFile}
    (sound : Sound platform file) (general : platform.general.classifier? = some classifier)
    (exact : data.length = layout.size) :
    let outcome := file.classify classifier layout data
    (∀ record ∈ outcome.records, record.isSpill = false) ∧
    (platform = .unix → ∀ kind, outcome.state.used kind =
      file.used kind + (outcome.records.map (Record.unrolledTo kind)).sum) ∧
    (platform = .windows → ∀ kind, outcome.state.used kind =
      file.used kind + outcome.records.countP Record.isInRegister) := by
  intro outcome
  cases platform with
  | unix =>
    cases general
    obtain ⟨record, reported, placed, granted⟩ := file.classifySysV_reports exact
    have records : outcome.records = [record] := reported
    refine ⟨fun other member => ?_, fun _ kind => ?_, nofun⟩
    · rw [records, List.mem_singleton] at member
      rw [member, placed]
    · rw [records, granted_used_on_unix sound exact kind, ← granted kind]
      rfl
  | windows =>
    cases general
    have reports (kind : RegisterClass) := classifyWin64_reports sound exact kind
    exact ⟨(reports .integer).2, nofun, fun _ kind => (reports kind).1⟩

end RegisterFile

theorem ArgumentArea.pushAggregate_reports {platform : Platform} {classifier : Classifier}
    {area : ArgumentArea} {layout : Layout} {data : List Byte}
    (sound : area.registers.Sound platform)
    (general : platform.general.classifier? = some classifier)
    (exact : data.length = layout.size) :
    let outcome := area.pushAggregate classifier layout data
    outcome.state.stack = area.stack.append data ∧
    (∀ record ∈ outcome.records, record.isSpill = false) ∧
    (platform = .unix → ∀ kind, outcome.state.registers.used kind =
      area.registers.used kind + (outcome.records.map (Record.unrolledTo kind)).sum) ∧
    (platform = .windows → ∀ kind, outcome.state.registers.used kind =
      area.registers.used kind + outcome.records.countP Record.isInRegister) := by
  rw [pushAggregate, if_pos exact]
  by_cases offered : layout.size ≤ Classifier.offerLimit
  · rw [if_pos offered]
    exact ⟨rfl, area.registers.classify_reports sound general exact⟩
  · rw [if_neg offered]
    exact ⟨rfl, nofun, fun _ _ => rfl, fun _ _ => rfl⟩

theorem Platform.scheme?_cases {platform : Platform} {convention : Convention} {scheme : Scheme}
    (found : platform.scheme? convention = some scheme) :
    scheme = platform.general ∨ platform = .unix ∧ scheme = .syscall := by
  unfold scheme? at found
  split at found
  · cases found
    exact .inl rfl
  · cases found
    exact .inl rfl
  · cases found
    exact .inl rfl
  · split at found
    · next unix =>
      cases found
      exact .inr ⟨unix, rfl⟩
    · cases found
  · split at found
    · next unix =>
      cases found
      exact .inr ⟨unix, rfl⟩
    · cases found
  · split at found
    · cases found
      exact .inl rfl
    · cases found

namespace Context

namespace Line

def isScalar (line : Line) : Bool :=
  match line.operation with
  | .push _ => true
  | _ => false

/-- A scalar of the class was pushed for an ordinary call. -/
def isOrdinary (kind : RegisterClass) (line : Line) : Bool :=
  match line.operation with
  | .push argument => line.scheme ≠ .syscall ∧ argument.registerClass = kind
  | _ => false

/-- A scalar was pushed for a system call, and taken. -/
def isSystem (line : Line) : Bool :=
  match line.operation, line.answer with
  | .push _, .done => line.scheme = .syscall
  | _, _ => false

/-- The size of a structure that was taken. -/
def structBytes (line : Line) : Nat :=
  match line.operation, line.answer with
  | .pushStruct layout _, .done => layout.size
  | _, _ => 0

def isReset (line : Line) : Bool :=
  match line.operation with
  | .reset => true
  | _ => false

end Line

/-- The lines after the last reset. -/
def sinceReset (lines : List Line) : List Line := lines.rtakeWhile fun line => !line.isReset

def journal (lines : List Line) : List Record := lines.flatMap Line.records

/-- Reports of arguments of a class that found no register. -/
def spilled (kind : RegisterClass) (lines : List Line) : Nat :=
  (journal lines).count (ArgumentArea.spillRecord kind)

/-- Registers of a class that aggregates were unrolled into, by the reports. -/
def unrolled (kind : RegisterClass) (lines : List Line) : Nat :=
  ((journal lines).map (Record.unrolledTo kind)).sum

@[simp] theorem journal_single (line : Line) : journal [line] = line.records :=
  List.append_nil line.records

theorem journal_append (early late : List Line) :
    journal (early ++ late) = journal early ++ journal late :=
  List.flatMap_append

@[simp] theorem spilled_single (kind : RegisterClass) (line : Line) :
    spilled kind [line] = line.records.count (ArgumentArea.spillRecord kind) := by
  rw [spilled, journal_single]

theorem spilled_append (kind : RegisterClass) (early late : List Line) :
    spilled kind (early ++ late) = spilled kind early + spilled kind late := by
  rw [spilled, journal_append, List.count_append]
  rfl

@[simp] theorem unrolled_single (kind : RegisterClass) (line : Line) :
    unrolled kind [line] = (line.records.map (Record.unrolledTo kind)).sum := by
  rw [unrolled, journal_single]

theorem unrolled_append (kind : RegisterClass) (early late : List Line) :
    unrolled kind (early ++ late) = unrolled kind early + unrolled kind late := by
  rw [unrolled, journal_append, List.map_append, List.sum_append]
  rfl

theorem spilled_of_none (line : Line) (none : ∀ record ∈ line.records, record.isSpill = false)
    (kind : RegisterClass) : spilled kind [line] = 0 := by
  rw [spilled_single]
  refine List.count_eq_zero.mpr fun member => ?_
  cases (none _ member).symm.trans (ArgumentArea.spillRecord_isSpill kind)

/-- What some lines tell accounts for the difference between two areas of the platform. -/
structure Balanced (platform : Platform) (lines : List Line) (earlier later : ArgumentArea) :
    Prop where
  integers : platform = .unix →
    later.registers.used .integer + spilled .integer lines = earlier.registers.used .integer +
      lines.countP (Line.isOrdinary .integer) + unrolled .integer lines +
      lines.countP Line.isSystem
  floats : platform = .unix →
    later.registers.used .float + spilled .float lines = earlier.registers.used .float +
      lines.countP (Line.isOrdinary .float) + unrolled .float lines
  positions : platform = .windows → ∀ kind,
    later.registers.used kind + (spilled .integer lines + spilled .float lines) =
      earlier.registers.used kind + lines.countP Line.isScalar +
        (journal lines).countP Record.isInRegister
  stack : later.stack.bytes.length = earlier.stack.bytes.length +
    8 * (spilled .integer lines + spilled .float lines) + (lines.map Line.structBytes).sum

namespace Balanced

variable {platform : Platform} {first second third : ArgumentArea}

theorem refl (area : ArgumentArea) : Balanced platform [] area area :=
  ⟨fun _ => rfl, fun _ => rfl, fun _ _ => rfl, rfl⟩

theorem trans {early late : List Line} (before : Balanced platform early first second)
    (after : Balanced platform late second third) :
    Balanced platform (early ++ late) first third := by
  refine ⟨fun unix => ?_, fun unix => ?_, fun windows kind => ?_, ?_⟩
  · have := before.integers unix
    have := after.integers unix
    rw [spilled_append, unrolled_append, List.countP_append, List.countP_append]
    omega
  · have := before.floats unix
    have := after.floats unix
    rw [spilled_append, unrolled_append, List.countP_append]
    omega
  · have := before.positions windows kind
    have := after.positions windows kind
    rw [spilled_append, spilled_append, journal_append, List.countP_append, List.countP_append]
    omega
  · have := before.stack
    have := after.stack
    rw [spilled_append, spilled_append, List.map_append, List.sum_append]
    omega

theorem idle {line : Line} (scalar : line.isScalar = false) (bytes : line.structBytes = 0)
    (neutral : ∀ record ∈ line.records, record.Neutral) (area : ArgumentArea) :
    Balanced platform [line] area area := by
  have spills := spilled_of_none line fun record member => (neutral record member).spill
  have grants (kind : RegisterClass) : unrolled kind [line] = 0 := by
    rw [unrolled_single]
    refine List.sum_eq_zero fun count member => ?_
    obtain ⟨record, reported, rfl⟩ := List.mem_map.mp member
    exact (neutral record reported).unrolled kind
  have positions : (journal [line]).countP Record.isInRegister = 0 := by
    rw [journal_single]
    exact List.countP_eq_zero.mpr fun record member => by
      simp [(neutral record member).inRegister]
  have ordinary (kind : RegisterClass) : line.isOrdinary kind = false := by
    cases operation : line.operation <;> simp_all [Line.isScalar, Line.isOrdinary]
  have system : line.isSystem = false := by
    cases operation : line.operation <;> simp_all [Line.isScalar, Line.isSystem]
  refine ⟨fun _ => ?_, fun _ => ?_, fun _ _ => ?_, ?_⟩
  · rw [spills, grants, List.countP_singleton, List.countP_singleton, ordinary, system]
    rfl
  · rw [spills, grants, List.countP_singleton, ordinary]
    rfl
  · rw [spills, spills, positions, List.countP_singleton, scalar]
    rfl
  · rw [spills, spills, List.map_singleton, List.sum_singleton, bytes]
    rfl

theorem quiet {line : Line} (scalar : line.isScalar = false) (bytes : line.structBytes = 0)
    (silent : line.records = []) (area : ArgumentArea) : Balanced platform [line] area area := by
  refine idle scalar bytes (fun record member => ?_) area
  rw [silent] at member
  cases member

end Balanced

theorem placed_balanced {platform : Platform} {area : ArgumentArea}
    (sound : area.registers.Sound platform) (argument : Argument)
    (free : area.registers.used argument.registerClass <
      (area.registers.slots argument.registerClass).length) :
    Balanced platform [⟨⟨.push argument, .done⟩, platform.general, []⟩] area
      ⟨(area.registers.push argument.registerClass argument.word).2, area.stack⟩ := by
  have counted := area.registers.push_used_of_free argument.word free
  rw [sound.serves] at counted
  constructor
  · rintro rfl
    simp [counted, Line.isOrdinary, Line.isSystem, Platform.general, eq_comm]
  · rintro rfl
    simp [counted, Line.isOrdinary, Platform.general, eq_comm]
  · rintro rfl kind
    simp [counted, Line.isScalar]
  · simp [Line.structBytes]

theorem spill_balanced {platform : Platform} (area : ArgumentArea) (argument : Argument) :
    Balanced platform [⟨⟨.push argument, .done⟩, platform.general,
        [ArgumentArea.spillRecord argument.registerClass]⟩] area
      ⟨area.registers, area.stack.append argument.word.bytes⟩ := by
  have ordinary : platform.general ≠ .syscall := by cases platform <;> decide
  have one (kind : RegisterClass) : [ArgumentArea.spillRecord argument.registerClass].count
      (ArgumentArea.spillRecord kind) = if argument.registerClass = kind then 1 else 0 := by
    cases argument.registerClass <;> cases kind <;> rfl
  have total : (if argument.registerClass = .integer then 1 else 0) +
      (if argument.registerClass = .float then 1 else 0) = 1 := by
    cases argument.registerClass <;> rfl
  have grants (kind : RegisterClass) :
      (ArgumentArea.spillRecord argument.registerClass).unrolledTo kind = 0 := by
    cases argument.registerClass <;> rfl
  have memory : (ArgumentArea.spillRecord argument.registerClass).isInRegister = false := by
    cases argument.registerClass <;> rfl
  constructor
  · intro
    simp [one, grants, Line.isOrdinary, Line.isSystem, ordinary]
  · intro
    simp [one, grants, Line.isOrdinary, ordinary]
  · intro _ kind
    simp [one, total, memory, Line.isScalar]
  · simp [one, total, Line.structBytes, ArgumentStack.append]

theorem pushGeneral_balanced {platform : Platform} {area : ArgumentArea}
    (sound : area.registers.Sound platform) (argument : Argument) :
    Balanced platform
      [⟨⟨.push argument, .ofExcept (area.pushGeneral argument).result⟩, platform.general,
        (area.pushGeneral argument).records⟩]
      area (area.pushGeneral argument).state := by
  by_cases free : area.registers.used argument.registerClass <
      (area.registers.slots argument.registerClass).length
  · rw [area.pushGeneral_of_free argument free]
    exact placed_balanced sound argument free
  · rw [area.pushGeneral_of_full argument (Nat.not_lt.mp free)]
    exact spill_balanced area argument

theorem pushSystem_balanced {area : ArgumentArea} (sound : area.registers.Sound .unix)
    (argument : Argument) :
    Balanced .unix
      [⟨⟨.push argument, .ofExcept (area.pushSystem argument).result⟩, .syscall,
        (area.pushSystem argument).records⟩]
      area (area.pushSystem argument).state := by
  by_cases room : area.SystemRoom
  · have counted := area.registers.push_used_of_free argument.word room.2
    rw [sound.serves] at counted
    rw [area.pushSystem_of_room argument room]
    show Balanced .unix [⟨⟨.push argument, .done⟩, .syscall, []⟩] area
      ⟨(area.registers.push .integer argument.word).2, area.stack⟩
    constructor
    · simp [counted, Line.isOrdinary, Line.isSystem]
    · simp [counted, Line.isOrdinary]
    · nofun
    · simp [Line.structBytes]
  · rw [area.pushSystem_of_no_room argument room]
    show Balanced .unix [⟨⟨.push argument, .failed (.fault .tooManyArguments)⟩, .syscall, []⟩]
      area area
    constructor
    · simp [Line.isOrdinary, Line.isSystem]
    · simp [Line.isOrdinary]
    · nofun
    · simp [Line.structBytes]

theorem pushAggregate_balanced {platform : Platform} {classifier : Classifier}
    {area : ArgumentArea} (sound : area.registers.Sound platform)
    (general : platform.general.classifier? = some classifier)
    (layout : Layout) (data : List Byte) :
    Balanced platform
      [⟨⟨.pushStruct layout data, .ofExcept (area.pushAggregate classifier layout data).result⟩,
        platform.general, (area.pushAggregate classifier layout data).records⟩]
      area (area.pushAggregate classifier layout data).state := by
  by_cases exact : data.length = layout.size
  · obtain ⟨stack, placed, integers, positions⟩ := area.pushAggregate_reports sound general exact
    rw [(area.pushAggregate_granted classifier layout data exact).1]
    show Balanced platform [⟨⟨.pushStruct layout data, .done⟩, platform.general,
      (area.pushAggregate classifier layout data).records⟩] area _
    have spills := spilled_of_none ⟨⟨.pushStruct layout data, .done⟩, platform.general,
      (area.pushAggregate classifier layout data).records⟩ placed
    refine ⟨fun unix => ?_, fun unix => ?_, fun windows kind => ?_, ?_⟩
    · rw [spills, integers unix, unrolled_single]
      rfl
    · rw [spills, integers unix, unrolled_single]
      rfl
    · rw [spills, spills, positions windows, journal_single]
      rfl
    · rw [spills, spills, stack]
      simp [ArgumentStack.append, Line.structBytes, exact]
  · rw [area.pushAggregate_of_length_ne exact]
    exact .quiet rfl rfl rfl area

theorem select_neutral (context : Context) (convention : Convention) :
    ∀ record ∈ (context.select convention).records, record.Neutral := by
  intro record member
  cases found : context.platform.scheme? convention with
  | some scheme =>
    rw [context.select_of_scheme found] at member
    cases List.mem_singleton.mp member
    exact Record.switched_neutral convention scheme
  | none =>
    rw [context.select_of_no_scheme found] at member
    cases List.mem_singleton.mp member
    exact Record.selectionFailed_neutral _

theorem perform_selection_neutral (context : Context) {operation : Operation}
    (selection : operation.isSelection = true) :
    ∀ record ∈ (context.perform operation).records, record.Neutral := by
  cases operation with
  | push | pushStruct | reset | invoke => cases selection
  | select convention => exact context.select_neutral convention
  | selectIdentifier identifier =>
    simp only [perform, selectIdentifier]
    cases Convention.ofIdentifier? identifier with
    | some convention => exact context.select_neutral convention
    | none =>
      intro record member
      cases List.mem_singleton.mp member
      exact Record.selectionFailed_neutral (.unknown identifier)

theorem selection_balanced {platform : Platform} (context : Context) {operation : Operation}
    (selection : operation.isSelection = true) :
    Balanced platform [context.line operation] context.area
      (context.perform operation).state.area := by
  rw [context.perform_area, Operation.direct?_of_selection selection]
  have neutral := context.perform_selection_neutral selection
  cases operation with
  | push | pushStruct | reset | invoke => cases selection
  | select => exact .idle rfl rfl neutral context.area
  | selectIdentifier => exact .idle rfl rfl neutral context.area

theorem push_balanced {platform : Platform} {context : Context}
    (reachable : Reachable platform context) (argument : Argument) :
    Balanced platform [context.line (.push argument)] context.area
      (context.perform (.push argument)).state.area := by
  have sound := reachable.area.sound
  have schemes := Platform.scheme?_cases reachable.implemented.2
  obtain ⟨area, scheme, convention, origin, error⟩ := context
  rcases schemes with rfl | ⟨rfl, rfl⟩
  · cases platform <;> exact pushGeneral_balanced sound argument
  · exact pushSystem_balanced sound argument

theorem pushStruct_balanced {platform : Platform} {context : Context}
    (reachable : Reachable platform context) (layout : Layout) (data : List Byte) :
    Balanced platform [context.line (.pushStruct layout data)] context.area
      (context.perform (.pushStruct layout data)).state.area := by
  have sound := reachable.area.sound
  have schemes := Platform.scheme?_cases reachable.implemented.2
  obtain ⟨area, scheme, convention, origin, error⟩ := context
  rcases schemes with rfl | ⟨rfl, rfl⟩
  · cases platform with
    | unix => exact pushAggregate_balanced sound rfl layout data
    | windows => exact pushAggregate_balanced sound rfl layout data
  · exact .quiet rfl rfl rfl area

theorem perform_balanced {platform : Platform} {context : Context}
    (reachable : Reachable platform context) {operation : Operation}
    (kept : (context.line operation).isReset = false) :
    Balanced platform [context.line operation] context.area
      (context.perform operation).state.area := by
  cases operation with
  | push argument => exact push_balanced reachable argument
  | pushStruct layout data => exact pushStruct_balanced reachable layout data
  | reset => cases kept
  | select convention => exact context.selection_balanced rfl
  | selectIdentifier identifier => exact context.selection_balanced rfl
  | invoke => exact .quiet rfl rfl rfl context.area

/-- Nothing is in the registers, nor on the stack. -/
def Vacant (area : ArgumentArea) : Prop :=
  (∀ kind, area.registers.used kind = 0) ∧ area.stack.bytes = []

theorem vacant_reset (area : ArgumentArea) : Vacant area.reset :=
  ⟨area.registers.reset_emptied.used, rfl⟩

theorem run_balanced {platform : Platform} {context : Context}
    (reachable : Reachable platform context) (vacant : Vacant context.area)
    (operations : List Operation) :
    ∃ start, Vacant start ∧ Balanced platform (sinceReset (context.ledger operations)) start
      (context.after operations).area := by
  -- From the end, where a reset starts the books anew.
  induction operations using List.reverseRecOn with
  | nil => exact ⟨context.area, vacant, .refl _⟩
  | append_singleton before operation ih =>
    obtain ⟨start, empty, balanced⟩ := ih
    have last : (context.after before).ledger [operation] =
      [(context.after before).line operation] := rfl
    rw [after_append, ledger_append, last, sinceReset, List.rtakeWhile_concat]
    cases resetting : ((context.after before).line operation).isReset with
    | true =>
      cases operation with
      | reset => exact ⟨_, vacant_reset (context.after before).area, .refl _⟩
      | push | pushStruct | select | selectIdentifier | invoke => cases resetting
    | false =>
      exact ⟨start, empty, balanced.trans (perform_balanced (reachable.after before) resetting)⟩

/-- On Unix each class has its own account: the registers it fills and the words it spills are the
scalars pushed for ordinary calls, the registers that structures were unrolled into and, for integers,
the words that system calls took. On Windows the positions and the words of either class are all
the scalars and the structures that went to a register. On both, the stack has the spilled words and a
copy of every structure that was taken, and nothing else. -/
theorem books_balance {platform : Platform} {size : Nat} {created : Outcome Context Unit}
    (made : create platform size = .ok created) (operations : List Operation) :
    let lines := sinceReset (created.state.ledger operations)
    let area := (created.state.after operations).area
    (platform = .unix →
      area.registers.used .integer + spilled .integer lines =
        lines.countP (Line.isOrdinary .integer) + unrolled .integer lines +
          lines.countP Line.isSystem ∧
      area.registers.used .float + spilled .float lines =
        lines.countP (Line.isOrdinary .float) + unrolled .float lines) ∧
    (platform = .windows → ∀ kind,
      area.registers.used kind + (spilled .integer lines + spilled .float lines) =
        lines.countP Line.isScalar + (journal lines).countP Record.isInRegister) ∧
    area.stack.bytes.length =
      8 * (spilled .integer lines + spilled .float lines) + (lines.map Line.structBytes).sum := by
  intro lines area
  have vacant : Vacant created.state.area := by
    obtain ⟨opened, empty, rfl⟩ := create_eq_ok made
    rw [ArgumentArea.empty_eq_ok empty]
    exact ⟨fun kind => by cases platform <;> cases kind <;> rfl, rfl⟩
  obtain ⟨start, ⟨unused, bare⟩, balanced⟩ := run_balanced (.created made) vacant operations
  refine ⟨fun unix => ⟨?_, ?_⟩, fun windows kind => ?_, ?_⟩
  · rw [balanced.integers unix, unused, Nat.zero_add]
  · rw [balanced.floats unix, unused, Nat.zero_add]
  · rw [balanced.positions windows kind, unused, Nat.zero_add]
  · rw [balanced.stack, bare, List.length_nil, Nat.zero_add]

/-- A structure in registers, a system call that takes two words and refuses the third, and a
spilled word, all after a push that a reset makes void. -/
def bookedOperations : List Operation := [
  .push (.int 0), .reset,
  .push (.int 1), .push (.double 2), .push (.int 3), .push (.int 4),
  .pushStruct ⟨16, 8, [⟨⟨.scalar .long, 1⟩, 0⟩, ⟨⟨.scalar .double, 1⟩, 8⟩]⟩ (List.replicate 16 5),
  .select .systemStandard, .push (.float 7), .push (.int 8), .push (.int 9),
  .select .ellipsis, .push (.int 10)]

theorem booked_operations_balance :
    ∃ created, create .unix 4096 = .ok created ∧
      let lines := sinceReset (created.state.ledger bookedOperations)
      let area := (created.state.after bookedOperations).area
      spilled .integer lines = 1 ∧ lines.countP Line.isSystem = 2 ∧
        area.registers.used .integer = 6 ∧ area.registers.used .float = 2 ∧
        area.stack.bytes.length = 24 := by
  obtain ⟨created, made⟩ : ∃ created, create .unix 4096 = .ok created := ⟨_, rfl⟩
  obtain ⟨unix, -, stack⟩ := books_balance made bookedOperations
  obtain ⟨integers, floats⟩ := unix rfl
  cases made
  exact ⟨_, rfl, rfl, rfl, Nat.add_right_cancel integers, floats, stack⟩

end Context
end ForeignCall
