import ForeignCall.Proofs.AllOrNothing
import ForeignCall.Proofs.Course

/-! Reuse of a context. A reset sets the counters to zero and leaves old words in the slots. But no
push, no room check, no classifier and no selection depends on a slot that the current call has not
filled, so two contexts that differ in such slots alone give the same answers ever after. `Alike` is
this relation, for a row of slots, a register file, an argument area and a context. -/
namespace ForeignCall

/-- Two operations that were answered and reported alike, and that left related states. -/
structure Outcome.Agree (alike : σ → σ → Prop) (first second : Outcome σ α) : Prop where
  result : first.result = second.result
  records : first.records = second.records
  state : alike first.state second.state

namespace Outcome.Agree

variable {alike : σ → σ → Prop} {first second : Outcome σ α}

theorem mapResult (agree : Agree alike first second) (f : α → β) :
    Agree alike (first.mapResult f) (second.mapResult f) :=
  ⟨congrArg f agree.result, agree.records, agree.state⟩

theorem within {related : τ → τ → Prop} (agree : Agree alike first second) {embed lift : σ → τ}
    (put : ∀ {a b}, alike a b → related (embed a) (lift b)) :
    Agree related (first.within embed) (second.within lift) :=
  ⟨agree.result, agree.records, put agree.state⟩

end Outcome.Agree

/-- The same words are filled; those behind them may differ. -/
structure SlotRow.Alike (first second : SlotRow n) : Prop where
  used : first.used = second.used
  filled : first.filled = second.filled

theorem SlotRow.push_alike {first second : SlotRow n} (alike : first.Alike second) (word : Word) :
    (first.push word).1 = (second.push word).1 ∧
      (first.push word).2.Alike (second.push word).2 := by
  by_cases free : first.used < n
  · have room : second.used < n := alike.used ▸ free
    refine ⟨?_, ?_, ?_⟩
    · rw [push_of_free free, push_of_free room]
    · rw [push_of_free free, push_of_free room]
      exact congrArg (· + 1) alike.used
    · rw [push_filled free, push_filled room, alike.filled]
  · have full : n ≤ second.used := alike.used ▸ Nat.not_lt.mp free
    rw [push_of_full (Nat.not_lt.mp free), push_of_full full]
    exact ⟨rfl, alike⟩

namespace RegisterFile

structure Alike (first second : RegisterFile) : Prop where
  platform : first.platform = second.platform
  used : ∀ kind, first.used kind = second.used kind
  filled : ∀ kind, first.filled kind = second.filled kind

variable {first second : RegisterFile}

theorem Alike.remaining (alike : first.Alike second) : first.remaining = second.remaining := by
  funext kind
  rw [RegisterFile.remaining, RegisterFile.remaining, slots_length, slots_length, alike.platform,
    alike.used]

/-- After a reset nothing is filled, so only the platform counts. -/
theorem reset_alike (same : first.platform = second.platform) : first.reset.Alike second.reset := by
  cases first with
  | separate => cases second with
    | separate => exact ⟨rfl, fun kind => by cases kind <;> rfl, fun kind => by cases kind <;> rfl⟩
    | shared => cases same
  | shared => cases second with
    | separate => cases same
    | shared => exact ⟨rfl, fun kind => by cases kind <;> rfl, fun kind => by cases kind <;> rfl⟩

theorem push_alike (alike : first.Alike second) (kind : RegisterClass) (word : Word) :
    (first.push kind word).1 = (second.push kind word).1 ∧
      (first.push kind word).2.Alike (second.push kind word).2 := by
  have same := alike.platform
  cases first with
  | separate integers floats => cases second with
    | shared => cases same
    | separate others singles =>
      have ints : integers.Alike others := ⟨alike.used .integer, alike.filled .integer⟩
      have rest : floats.Alike singles := ⟨alike.used .float, alike.filled .float⟩
      cases kind with
      | integer =>
        obtain ⟨placed, pushed⟩ := SlotRow.push_alike ints word
        refine ⟨placed, rfl, fun kind => ?_, fun kind => ?_⟩ <;> cases kind
        · exact pushed.used
        · exact rest.used
        · exact pushed.filled
        · exact rest.filled
      | float =>
        obtain ⟨placed, pushed⟩ := SlotRow.push_alike rest word
        refine ⟨placed, rfl, fun kind => ?_, fun kind => ?_⟩ <;> cases kind
        · exact ints.used
        · exact pushed.used
        · exact ints.filled
        · exact pushed.filled
  | shared row => cases second with
    | separate => cases same
    | shared other =>
      have rows : row.Alike other := ⟨alike.used .integer, alike.filled .integer⟩
      obtain ⟨placed, pushed⟩ := SlotRow.push_alike rows word
      rw [push_shared, push_shared]
      refine ⟨placed, rfl, fun kind => ?_, fun kind => ?_⟩
      · cases kind <;> exact pushed.used
      · cases kind <;> exact pushed.filled

theorem pushAll_alike (alike : first.Alike second) (words : List (RegisterClass × Word)) :
    (first.pushAll words).Alike (second.pushAll words) := by
  induction words generalizing first second with
  | nil => exact alike
  | cons head rest ih => exact ih (push_alike alike head.1 head.2).2

theorem classify_alike (alike : first.Alike second) (classifier : Classifier) (layout : Layout)
    (data : List Byte) : Outcome.Agree Alike (first.classify classifier layout data)
      (second.classify classifier layout data) := by
  cases classifier with
  | sysv =>
    simp only [classify, classifySysV, alike.remaining]
    split
    · exact ⟨rfl, rfl, alike⟩
    · split
      · split
        · exact ⟨rfl, rfl, alike⟩
        · split
          · exact ⟨rfl, rfl, alike⟩
          · exact ⟨rfl, rfl, pushAll_alike alike _⟩
      · exact ⟨rfl, rfl, alike⟩
  | win64 =>
    simp only [classify, classifyWin64]
    split
    · split
      · exact ⟨rfl, rfl, alike⟩
      · next bytes _ =>
        obtain ⟨placed, pushed⟩ := push_alike alike .integer (Word.ofBytes bytes)
        exact ⟨rfl, by rw [placed], pushed⟩
    · exact ⟨rfl, rfl, alike⟩

end RegisterFile

namespace ArgumentArea

/-- The same bytes are on the stack; the room for them may differ. -/
structure Alike (first second : ArgumentArea) : Prop where
  registers : first.registers.Alike second.registers
  stack : first.stack.bytes = second.stack.bytes

variable {first second : ArgumentArea}

theorem append_alike (alike : first.Alike second) (bytes : List Byte) :
    (first.stack.append bytes).bytes = (second.stack.append bytes).bytes :=
  congrArg (· ++ bytes) alike.stack

theorem pushGeneral_alike (alike : first.Alike second) (argument : Argument) :
    Outcome.Agree Alike (first.pushGeneral argument) (second.pushGeneral argument) := by
  obtain ⟨placed, pushed⟩ :=
    RegisterFile.push_alike alike.registers argument.registerClass argument.word
  simp only [pushGeneral, placed]
  split
  · exact ⟨rfl, rfl, pushed, alike.stack⟩
  · exact ⟨rfl, rfl, pushed, append_alike alike _⟩

theorem pushSystem_alike (alike : first.Alike second) (argument : Argument) :
    Outcome.Agree Alike (first.pushSystem argument) (second.pushSystem argument) := by
  obtain ⟨placed, pushed⟩ := RegisterFile.push_alike alike.registers .integer argument.word
  simp only [pushSystem, alike.registers.used, placed]
  split
  · exact ⟨rfl, rfl, pushed, alike.stack⟩
  · exact ⟨rfl, rfl, alike⟩

theorem push_alike (alike : first.Alike second) (scheme : Scheme) (argument : Argument) :
    Outcome.Agree Alike (first.push scheme argument) (second.push scheme argument) := by
  cases scheme with
  | sysv | win64 => exact pushGeneral_alike alike argument
  | syscall => exact pushSystem_alike alike argument

theorem pushStruct_alike (alike : first.Alike second) (scheme : Scheme) (layout : Layout)
    (data : List Byte) : Outcome.Agree Alike (first.pushStruct scheme layout data)
      (second.pushStruct scheme layout data) := by
  unfold pushStruct pushAggregate
  split
  · next classifier _ =>
    split
    · split
      · exact ((RegisterFile.classify_alike alike.registers classifier layout data).mapResult _).within
          fun registers => ⟨registers, append_alike alike data⟩
      · exact ⟨rfl, rfl, alike.registers, append_alike alike data⟩
    · exact ⟨rfl, rfl, alike⟩
  · exact ⟨rfl, rfl, alike⟩

end ArgumentArea

namespace Context

/-- The operation calls a function, which sees all slots. -/
def Operation.isInvocation : Operation → Bool
  | .invoke .. => true
  | _ => false

structure Alike (first second : Context) : Prop where
  area : first.area.Alike second.area
  scheme : first.scheme = second.scheme
  convention : first.convention = second.convention
  platform : first.platform = second.platform

variable {first second : Context}

theorem select_alike (alike : first.Alike second) (convention : Convention) :
    Outcome.Agree Alike (first.select convention) (second.select convention) := by
  unfold select
  rw [alike.platform]
  split
  · exact ⟨rfl, rfl, alike.area, rfl, rfl, rfl⟩
  · exact ⟨rfl, rfl, alike.area, alike.scheme, alike.convention, alike.platform⟩

theorem perform_alike (alike : first.Alike second) {operation : Operation}
    (other : operation.isInvocation = false) :
    Outcome.Agree Alike (first.perform operation) (second.perform operation) := by
  have put {area changed : ArgumentArea} (related : area.Alike changed) :
      Alike { first with area } { second with area := changed } :=
    ⟨related, alike.scheme, alike.convention, alike.platform⟩
  cases operation with
  | push argument =>
    have pushed : Outcome.Agree ArgumentArea.Alike (first.area.push first.scheme argument)
        (second.area.push second.scheme argument) := by
      rw [alike.scheme]
      exact ArgumentArea.push_alike alike.area second.scheme argument
    exact (pushed.within put).mapResult _
  | pushStruct layout data =>
    have pushed : Outcome.Agree ArgumentArea.Alike
        (first.area.pushStruct first.scheme layout data)
        (second.area.pushStruct second.scheme layout data) := by
      rw [alike.scheme]
      exact ArgumentArea.pushStruct_alike alike.area second.scheme layout data
    exact (pushed.within put).mapResult _
  | reset => exact ⟨rfl, rfl, put ⟨RegisterFile.reset_alike alike.area.registers.platform, rfl⟩⟩
  | select convention => exact (select_alike alike convention).mapResult _
  | selectIdentifier identifier =>
    refine Outcome.Agree.mapResult ?_ _
    unfold selectIdentifier
    split
    · exact select_alike alike _
    · exact ⟨rfl, rfl, alike.area, alike.scheme, alike.convention, alike.platform⟩
  | invoke => cases other

/-- A run of two contexts that are alike: every step is answered and reported alike. -/
theorem ledger_alike (alike : first.Alike second) {operations : List Operation}
    (others : ∀ operation ∈ operations, operation.isInvocation = false) :
    first.ledger operations = second.ledger operations ∧
      (first.after operations).Alike (second.after operations) := by
  induction operations generalizing first second with
  | nil => exact ⟨rfl, alike⟩
  | cons operation rest ih =>
    have step := perform_alike alike (others operation List.mem_cons_self)
    obtain ⟨lines, final⟩ :=
      ih step.state fun other member => others other (List.mem_cons_of_mem _ member)
    refine ⟨?_, final⟩
    simp only [ledger, line, step.result, step.records, alike.scheme, lines]

theorem reset_reset (context : Context) : context.reset.reset = context.reset := by
  obtain ⟨⟨registers, stack⟩, _⟩ := context
  cases registers <;> rfl

theorem perform_select_of_scheme (context : Context) {convention : Convention} {scheme : Scheme}
    (found : context.platform.scheme? convention = some scheme) :
    context.perform (.select convention) = ⟨.done, [.switched convention scheme],
      { context with scheme, convention, lastError := none }⟩ := by
  rw [perform, select_of_scheme context found]
  rfl

/-- A context that is reset is from then on like a new context of its platform for which the same
convention was selected: the same operations get the same answers and the same records, and have the
same effect on the counters, the filled slots, the stack and the selection. Only the words in slots
that are not filled are left over, and a second reset changes nothing at all. -/
theorem reset_context_is_like_new {platform : Platform} {context : Context}
    (reachable : Reachable platform context) {size : Nat} {created : Outcome Context Unit}
    (made : create platform size = .ok created) :
    let cleared := (context.perform .reset).state
    let fresh := created.state.perform (.select context.convention)
    fresh.result = .done ∧
    (∀ operations, (∀ operation ∈ operations, operation.isInvocation = false) →
      cleared.ledger operations = fresh.state.ledger operations ∧
      (cleared.after operations).Alike (fresh.state.after operations) ∧
      (cleared.after operations).area.registers.remaining =
        (fresh.state.after operations).area.registers.remaining) ∧
    (cleared.perform .reset).state = cleared := by
  obtain ⟨origin, implemented⟩ := reachable.implemented
  obtain ⟨area, opened, rfl⟩ := create_eq_ok made
  obtain rfl := ArgumentArea.empty_eq_ok opened
  intro cleared fresh
  have selected : fresh = _ := perform_select_of_scheme _ implemented
  have started : RegisterFile.empty platform = (RegisterFile.empty platform).reset := by
    cases platform <;> rfl
  have alike : cleared.Alike fresh.state := by
    rw [selected]
    refine ⟨⟨?_, rfl⟩, rfl, rfl, origin⟩
    show context.area.registers.reset.Alike (.empty platform)
    rw [started]
    exact RegisterFile.reset_alike
      (reachable.area.sound.serves.trans (RegisterFile.empty_sound platform).serves.symm)
  refine ⟨by rw [selected], fun operations others => ?_, reset_reset context⟩
  obtain ⟨lines, final⟩ := ledger_alike alike others
  exact ⟨lines, final, final.area.registers.remaining⟩

/-- All float slots taken, a word on the stack, a system call begun and an error remembered. -/
def wornOperations : List Operation :=
  List.replicate 9 (.push (.double 0x4000000000000000)) ++
    [.push (.int 7), .select .systemStandard, .push (.float 0x3f800000), .select .arm64]

def furtherOperations : List Operation := [
  .push (.int 3), .pushStruct ⟨4, 4, [⟨⟨.scalar .int, 1⟩, 0⟩]⟩ [1, 0, 0, 0], .selectIdentifier 8,
  .push (.float 0x40000000), .pushStruct ⟨4, 4, [⟨⟨.scalar .int, 1⟩, 0⟩]⟩ [1, 0, 0, 0]]

theorem worn_context_is_like_new :
    ∃ created worn, create .unix 4096 = .ok created ∧
      worn = created.state.after wornOperations ∧ Reachable .unix worn ∧
      (worn.perform .reset).state.area.registers.slots .integer =
        [7, 0x3f800000, 0, 0, 0, 0] ∧
      (worn.perform .reset).state.ledger furtherOperations =
        (created.state.perform (.select .systemStandard)).state.ledger furtherOperations ∧
      ((worn.perform .reset).state.after furtherOperations).area.registers.filled .integer =
        [3, 1] := by
  obtain ⟨created, made⟩ : ∃ created, create .unix 4096 = .ok created := ⟨_, rfl⟩
  have reachable := (Reachable.created made).after wornOperations
  obtain ⟨-, further, -⟩ := reset_context_is_like_new reachable made
  obtain ⟨lines, final, -⟩ := further furtherOperations (by decide)
  cases made
  exact ⟨_, _, rfl, rfl, reachable, rfl, lines, (final.area.registers.filled .integer).trans rfl⟩

end Context
end ForeignCall
