import ForeignCall.Context

/-! Histories of selections. Pushes, resets and invocations work on the argument area alone, and a
selection works on the rest of a context: if it succeeds, it sets convention and scheme and clears
the error, and otherwise it sets the error alone. So the convention of a context is the one selected
last, its scheme is the one that belongs to it, and its error is the answer to the last attempt. -/
namespace ForeignCall.Context

namespace Operation

def isSelection : Operation → Bool
  | .select _ | .selectIdentifier _ => true
  | _ => false

/-- The convention that is asked for; an identifier may name none. -/
def requested? : Operation → Option Convention
  | .select convention => some convention
  | .selectIdentifier identifier => Convention.ofIdentifier? identifier
  | _ => none

end Operation

structure Entry where
  operation : Operation
  answer : Answer

namespace Entry

def selected? (entry : Entry) : Option Convention :=
  match entry.answer with
  | .done => entry.operation.requested?
  | _ => none

def selectionError? (entry : Entry) : Option SelectionError :=
  match entry.answer with
  | .failed (.error (.selection error)) => some error
  | _ => none

end Entry

/-- Performs operations in order, whether or not they succeed, and keeps a history. -/
def run (context : Context) : List Operation → List Entry × Context
  | [] => ([], context)
  | operation :: rest =>
    let outcome := context.perform operation
    let (history, final) := outcome.state.run rest
    (⟨operation, outcome.result⟩ :: history, final)

def selections (history : List Entry) : List Entry :=
  history.filter fun entry => entry.operation.isSelection

theorem requested?_of_not_selection {operation : Operation}
    (other : operation.isSelection = false) : operation.requested? = none := by
  cases operation with
  | select | selectIdentifier => cases other
  | push | pushStruct | reset | invoke => rfl

theorem perform_of_not_selection (context : Context) {operation : Operation}
    (other : operation.isSelection = false) :
    ∃ area, (context.perform operation).state = { context with area } := by
  cases operation with
  | select | selectIdentifier => cases other
  | push argument => exact ⟨(context.area.push context.scheme argument).state, rfl⟩
  | pushStruct layout data =>
    exact ⟨(context.area.pushStruct context.scheme layout data).state, rfl⟩
  | reset => exact ⟨context.area.reset, rfl⟩
  | invoke => exact ⟨context.area, rfl⟩

theorem select_of_scheme (context : Context) {convention : Convention} {scheme : Scheme}
    (found : context.platform.scheme? convention = some scheme) :
    context.select convention = ⟨.ok (), [.switched convention scheme],
      { context with scheme, convention, lastError := none }⟩ := by
  simp only [select, Platform.select, found, List.nil_append]

theorem select_of_no_scheme (context : Context) {convention : Convention}
    (missing : context.platform.scheme? convention = none) :
    context.select convention = context.refuse (.unsupported convention context.platform)
      [.selectionFailed (.unsupported convention context.platform)] := by
  simp only [select, Platform.select, missing]

theorem perform_selectIdentifier (context : Context) (convention : Convention) :
    context.perform (.selectIdentifier convention.identifier) =
      context.perform (.select convention) := by
  simp only [perform, selectIdentifier, Convention.ofIdentifier?_identifier]

theorem selectIdentifier_unknown (context : Context) {identifier : Int}
    (unknown : ∀ convention : Convention, (convention.identifier : Int) ≠ identifier) :
    context.selectIdentifier identifier = context.refuse (.unknown identifier)
      [.selectionFailed (.unknown identifier)] := by
  have none : Convention.ofIdentifier? identifier = none :=
    Option.eq_none_iff_forall_ne_some.mpr fun convention found =>
      unknown convention (Convention.ofIdentifier?_eq_some_iff.mp found)
  rw [selectIdentifier, none]

/-- A selection succeeds or fails, and in either case leaves the argument area alone. -/
theorem perform_selection (context : Context) {operation : Operation}
    (selection : operation.isSelection = true) :
    (∃ convention scheme, operation.requested? = some convention ∧
      context.platform.scheme? convention = some scheme ∧
      (context.perform operation).result = .done ∧
      (context.perform operation).state =
        { context with scheme, convention, lastError := none }) ∨
    ∃ error, (context.perform operation).result = .failed (.error (.selection error)) ∧
      (context.perform operation).state = { context with lastError := some error } := by
  have selecting (convention : Convention) :
      (∃ scheme, context.platform.scheme? convention = some scheme ∧
        (context.perform (.select convention)).result = .done ∧
        (context.perform (.select convention)).state =
          { context with scheme, convention, lastError := none }) ∨
      ∃ error, (context.perform (.select convention)).result =
          .failed (.error (.selection error)) ∧
        (context.perform (.select convention)).state =
          { context with lastError := some error } := by
    cases found : context.platform.scheme? convention with
    | some scheme =>
      refine .inl ⟨scheme, rfl, ?_⟩
      simp only [perform, context.select_of_scheme found]
      exact ⟨rfl, rfl⟩
    | none =>
      refine .inr ⟨.unsupported convention context.platform, ?_⟩
      simp only [perform, context.select_of_no_scheme found]
      exact ⟨rfl, rfl⟩
  cases operation with
  | push | pushStruct | reset | invoke => cases selection
  | select convention =>
    rcases selecting convention with ⟨scheme, found, done⟩ | failed
    · exact .inl ⟨convention, scheme, rfl, found, done⟩
    · exact .inr failed
  | selectIdentifier identifier =>
    cases named : Convention.ofIdentifier? identifier with
    | some convention =>
      cases Convention.ofIdentifier?_eq_some_iff.mp named
      rw [context.perform_selectIdentifier]
      rcases selecting convention with ⟨scheme, found, done⟩ | failed
      · exact .inl ⟨convention, scheme, named, found, done⟩
      · exact .inr failed
    | none =>
      refine .inr ⟨.unknown identifier, ?_⟩
      simp only [perform, selectIdentifier, named]
      exact ⟨rfl, rfl⟩

theorem selections_append (history : List Entry) (entry : Entry) :
    selections (history ++ [entry]) =
      if entry.operation.isSelection then selections history ++ [entry] else selections history := by
  simp only [selections, List.filter_append, List.filter_cons, List.filter_nil]
  split
  · rfl
  · exact List.append_nil _

/-- What a context shows after a history. -/
structure Follows (platform : Platform) (history : List Entry) (context : Context) : Prop where
  origin : context.platform = platform
  convention : context.convention =
    (history.filterMap Entry.selected?).getLast?.getD .standard
  scheme : platform.scheme? context.convention = some context.scheme
  lastError : context.lastError = (selections history).getLast?.bind Entry.selectionError?
  answered : ∀ entry ∈ selections history, entry.answer = .done ∨
    ∃ error, entry.answer = .failed (.error (.selection error))

theorem create_eq_ok {platform : Platform} {size : Nat} {created : Outcome Context Unit}
    (made : create platform size = .ok created) :
    ∃ area, ArgumentArea.empty platform (roomOf platform size) = .ok area ∧
      created = ⟨(), [.created platform (roomOf platform size)],
        ⟨area, platform.general, .standard, platform, none⟩⟩ := by
  unfold create at made
  dsimp only at made
  cases opened : ArgumentArea.empty platform (roomOf platform size) with
  | error fault =>
    rw [opened] at made
    cases made
  | ok area =>
    rw [opened] at made
    cases made
    exact ⟨area, rfl, rfl⟩

theorem create_follows {platform : Platform} {size : Nat} {created : Outcome Context Unit}
    (made : create platform size = .ok created) : Follows platform [] created.state := by
  obtain ⟨area, -, rfl⟩ := create_eq_ok made
  refine ⟨rfl, rfl, ?_, rfl, fun entry member => ?_⟩
  · cases platform <;> rfl
  · cases List.not_mem_nil member

theorem Follows.not_selection {platform : Platform} {history : List Entry} {context : Context}
    (follows : Follows platform history context) {operation : Operation}
    (other : operation.isSelection = false) (area : ArgumentArea) (answer : Answer) :
    Follows platform (history ++ [⟨operation, answer⟩]) { context with area } := by
  have same : selections (history ++ [⟨operation, answer⟩]) = selections history := by
    rw [selections_append, other]
    rfl
  have none : Entry.selected? ⟨operation, answer⟩ = none := by
    unfold Entry.selected?
    split
    · exact requested?_of_not_selection other
    · rfl
  refine ⟨follows.origin, ?_, follows.scheme, ?_, ?_⟩
  · simp only [List.filterMap_append, List.filterMap_cons, none, List.filterMap_nil,
      List.append_nil]
    exact follows.convention
  · rw [same]
    exact follows.lastError
  · rw [same]
    exact follows.answered

/-- One step. A selection that succeeds changes the last selected convention and the last answer,
one that fails the last answer alone. -/
theorem perform_follows {platform : Platform} {history : List Entry} {context : Context}
    (follows : Follows platform history context) (operation : Operation) :
    Follows platform (history ++ [⟨operation, (context.perform operation).result⟩])
      (context.perform operation).state := by
  cases selection : operation.isSelection with
  | false =>
    obtain ⟨area, state⟩ := context.perform_of_not_selection selection
    rw [state]
    exact follows.not_selection selection area _
  | true =>
    have further (answer : Answer) : selections (history ++ [⟨operation, answer⟩]) =
        selections history ++ [⟨operation, answer⟩] := by
      rw [selections_append, selection]
      rfl
    have answered (answer : Answer)
        (last : answer = .done ∨ ∃ error, answer = .failed (.error (.selection error))) :
        ∀ entry ∈ selections (history ++ [⟨operation, answer⟩]), entry.answer = .done ∨
          ∃ error, entry.answer = .failed (.error (.selection error)) := by
      rw [further]
      intro entry member
      rcases List.mem_append.mp member with earlier | new
      · exact follows.answered entry earlier
      · cases List.mem_singleton.mp new
        exact last
    rcases context.perform_selection selection with
      ⟨convention, scheme, requested, found, result, state⟩ | ⟨error, result, state⟩
    · rw [result, state]
      refine ⟨follows.origin, ?_, follows.origin ▸ found, ?_, answered _ (.inl rfl)⟩
      · simp [List.filterMap_append, Entry.selected?, requested]
      · simp [further, Entry.selectionError?]
    · rw [result, state]
      refine ⟨follows.origin, ?_, follows.scheme, ?_, answered _ (.inr ⟨error, rfl⟩)⟩
      · simpa [List.filterMap_append, Entry.selected?] using follows.convention
      · simp [further, Entry.selectionError?]

theorem run_follows {platform : Platform} {history : List Entry} {context : Context}
    (follows : Follows platform history context) (operations : List Operation) :
    Follows platform (history ++ (context.run operations).1) (context.run operations).2 := by
  induction operations generalizing history context with
  | nil => simpa only [run, List.append_nil] using follows
  | cons operation rest ih =>
    have later := ih (perform_follows follows operation)
    rwa [List.append_assoc] at later

theorem Follows.lastError_cases {platform : Platform} {history : List Entry} {context : Context}
    (follows : Follows platform history context) :
    (selections history).getLast? = none ∧ context.lastError = none ∨
    ∃ entry, (selections history).getLast? = some entry ∧
      (entry.answer = .done ∧ context.lastError = none ∨
        ∃ error, entry.answer = .failed (.error (.selection error)) ∧
          context.lastError = some error) := by
  have shown := follows.lastError
  cases last : (selections history).getLast? with
  | none =>
    rw [last] at shown
    exact .inl ⟨rfl, shown⟩
  | some entry =>
    rw [last, Option.bind_some, Entry.selectionError?] at shown
    refine .inr ⟨entry, rfl, ?_⟩
    rcases follows.answered entry (List.mem_of_getLast? last) with done | ⟨error, failed⟩
    · rw [done] at shown
      exact .inl ⟨done, shown⟩
    · rw [failed] at shown
      exact .inr ⟨error, failed, shown⟩

theorem Follows.lastError_eq_none_iff {platform : Platform} {history : List Entry}
    {context : Context} (follows : Follows platform history context) :
    context.lastError = none ↔
      ∀ entry, (selections history).getLast? = some entry → entry.answer = .done := by
  rcases follows.lastError_cases with
    ⟨none, clear⟩ | ⟨entry, last, ⟨done, clear⟩ | ⟨_, failed, set⟩⟩
  · simp [none, clear]
  · simp [last, done, clear]
  · simp [last, failed, set]

theorem Follows.lastError_eq_some_iff {platform : Platform} {history : List Entry}
    {context : Context} (follows : Follows platform history context) {error : SelectionError} :
    context.lastError = some error ↔ ∃ entry, (selections history).getLast? = some entry ∧
      entry.answer = .failed (.error (.selection error)) := by
  rcases follows.lastError_cases with
    ⟨none, clear⟩ | ⟨entry, last, ⟨done, clear⟩ | ⟨_, failed, set⟩⟩
  · simp [none, clear]
  · simp [last, done, clear]
  · simp [last, failed, set]

/-- After any history a context has the convention that was last selected with success, or the
standard one, with the scheme that belongs to it on the platform, and the error that the last
selection was answered with, if it was. Selections leave arguments alone. An identifier stands for
its convention in every respect, and any other number is refused. -/
theorem last_selections_decide {platform : Platform} {size : Nat} {created : Outcome Context Unit}
    (made : create platform size = .ok created) (operations : List Operation)
    {history : List Entry} {final : Context}
    (ran : created.state.run operations = (history, final)) :
    final.convention = (history.filterMap Entry.selected?).getLast?.getD .standard ∧
    final.platform = platform ∧ (platform.select final.convention).1 = .ok final.scheme ∧
    (final.lastError = none ↔
      ∀ entry, (selections history).getLast? = some entry → entry.answer = .done) ∧
    (∀ error, final.lastError = some error ↔ ∃ entry,
      (selections history).getLast? = some entry ∧
        entry.answer = .failed (.error (.selection error))) ∧
    (∀ operation, operation.isSelection = true →
      (final.perform operation).state.area = final.area) ∧
    (∀ convention : Convention, final.perform (.selectIdentifier convention.identifier) =
      final.perform (.select convention)) ∧
    ∀ identifier, (∀ convention : Convention, (convention.identifier : Int) ≠ identifier) →
      (final.perform (.selectIdentifier identifier)).result =
        .failed (.error (.selection (.unknown identifier))) ∧
      (final.perform (.selectIdentifier identifier)).state =
        { final with lastError := some (.unknown identifier) } := by
  have follows : Follows platform history final := by
    simpa only [ran, List.nil_append] using run_follows (create_follows made) operations
  refine ⟨follows.convention, follows.origin, ?_, follows.lastError_eq_none_iff,
    fun _ => follows.lastError_eq_some_iff, ?_, ?_, ?_⟩
  · rw [Platform.select, follows.scheme]
  · intro operation selection
    rcases final.perform_selection selection with ⟨_, _, -, -, -, state⟩ | ⟨_, -, state⟩
    · rw [state]
    · rw [state]
  · exact final.perform_selectIdentifier
  · intro identifier unknown
    rw [perform, final.selectIdentifier_unknown unknown]
    exact ⟨rfl, rfl⟩

def windowsContext : Context :=
  ⟨⟨.empty .windows, ⟨[], 4064, false⟩⟩, .win64, .standard, .windows, none⟩

def restlessOperations : List Operation := [
  .select .systemStandard, .push (.int 1), .selectIdentifier 7, .pushStruct ⟨4, 4, []⟩ [1], .reset,
  .selectIdentifier 12345, .push (.double 2), .invoke .spread 0 fun _ => none]

/-- The convention of identifier 7 was selected, and an unknown one asked for later. -/
theorem restless_windows_context :
    create .windows 4096 = .ok ⟨(), [.created .windows 4064], windowsContext⟩ ∧
    (windowsContext.run restlessOperations).2.convention = .x64Win64 ∧
    (Platform.windows.select (windowsContext.run restlessOperations).2.convention).1 =
      .ok (windowsContext.run restlessOperations).2.scheme ∧
    (windowsContext.run restlessOperations).2.lastError = some (.unknown 12345) := by
  have made : create .windows 4096 = .ok ⟨(), [.created .windows 4064], windowsContext⟩ := rfl
  obtain ⟨convention, -, scheme, -, error, -⟩ := last_selections_decide made restlessOperations rfl
  refine ⟨made, convention, scheme, (error _).mpr ⟨⟨.selectIdentifier 12345, _⟩, rfl, rfl⟩⟩

end ForeignCall.Context
