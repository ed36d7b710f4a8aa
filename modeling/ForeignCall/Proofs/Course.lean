import ForeignCall.Proofs.Reachability
import ForeignCall.Proofs.Selection

/-! The course of a context. A push or a reset is an operation on the argument area under the scheme
in force, a selection that succeeds puts a scheme in force, and nothing else changes either of them.
So the scheme of a context always implements its convention on its platform, and its area is one that
operations on areas lead to. -/
namespace ForeignCall

theorem ArgumentArea.after_append (area : ArgumentArea) (before rest : List Operation) :
    area.after (before ++ rest) = (area.after before).after rest :=
  List.foldl_append

namespace Context

namespace Operation

/-- The scheme that a selection puts in force, if it succeeds on the platform. -/
def chosen? (platform : Platform) (operation : Operation) : Option Scheme :=
  operation.requested?.bind platform.scheme?

/-- What a push or a reset is to the argument area while a scheme is in force. -/
def direct? (scheme : Scheme) : Operation → Option ArgumentArea.Operation
  | .push argument => some (.push scheme argument)
  | .pushStruct layout data => some (.pushStruct scheme layout data)
  | .reset => some .reset
  | .select _ | .selectIdentifier _ | .invoke .. => none

theorem direct?_of_selection {operation : Operation} (selection : operation.isSelection = true)
    (scheme : Scheme) : operation.direct? scheme = none := by
  cases operation with
  | select | selectIdentifier => rfl
  | push | pushStruct | reset | invoke => cases selection

end Operation

/-- The answer of a context that an argument area gives in its own terms. -/
inductive SameAnswer : Answer → ArgumentArea.Answer → Prop
  | done : SameAnswer .done .done
  | failed (cause : Failure) : SameAnswer (.failed cause) (.failed cause)

theorem SameAnswer.ofExcept (result : Except Failure Unit) :
    SameAnswer (.ofExcept result) (.ofExcept result) := by
  cases result with
  | ok => exact .done
  | error cause => exact .failed cause

def after (context : Context) (operations : List Operation) : Context := (context.run operations).2

theorem after_append (context : Context) (before rest : List Operation) :
    context.after (before ++ rest) = (context.after before).after rest := by
  induction before generalizing context with
  | nil => rfl
  | cons operation before ih => exact ih _

structure Line extends Entry where
  scheme : Scheme
  records : List Record

def line (context : Context) (operation : Operation) : Line :=
  let outcome := context.perform operation
  ⟨⟨operation, outcome.result⟩, context.scheme, outcome.records⟩

/-- Performs operations in order, whether or not they succeed, and keeps a full history. -/
def ledger (context : Context) : List Operation → List Line
  | [] => []
  | operation :: rest => context.line operation :: (context.perform operation).state.ledger rest

theorem ledger_append (context : Context) (before rest : List Operation) :
    context.ledger (before ++ rest) =
      context.ledger before ++ (context.after before).ledger rest := by
  induction before generalizing context with
  | nil => rfl
  | cons operation before ih => exact congrArg (_ :: ·) (ih _)

theorem perform_direct (context : Context) {operation : Operation} {step : ArgumentArea.Operation}
    (backed : operation.direct? context.scheme = some step) :
    SameAnswer (context.perform operation).result (context.area.perform step).result ∧
    (context.perform operation).records = (context.area.perform step).records ∧
    (context.perform operation).state =
      { context with area := (context.area.perform step).state } := by
  cases operation with
  | push argument =>
    cases backed
    exact ⟨.ofExcept _, rfl, rfl⟩
  | pushStruct layout data =>
    cases backed
    exact ⟨.ofExcept _, rfl, rfl⟩
  | reset =>
    cases backed
    exact ⟨.done, rfl, rfl⟩
  | select | selectIdentifier | invoke => cases backed

/-- Any operation leaves the area as its counterpart does, or as it was where it has none. -/
theorem perform_area (context : Context) (operation : Operation) :
    (context.perform operation).state.area =
      context.area.after (operation.direct? context.scheme).toList := by
  cases backed : operation.direct? context.scheme with
  | some step =>
    rw [(context.perform_direct backed).2.2]
    rfl
  | none =>
    cases selecting : operation.isSelection with
    | true =>
      rcases context.perform_selection selecting with ⟨_, _, -, -, -, state⟩ | ⟨_, -, state⟩
      · rw [state]
        rfl
      · rw [state]
        rfl
    | false =>
      cases operation with
      | push | pushStruct | reset => cases backed
      | select | selectIdentifier => cases selecting
      | invoke => rfl

theorem perform_platform (context : Context) (operation : Operation) :
    (context.perform operation).state.platform = context.platform := by
  cases selecting : operation.isSelection with
  | true =>
    rcases context.perform_selection selecting with ⟨_, _, -, -, -, state⟩ | ⟨_, -, state⟩
    · rw [state]
    · rw [state]
  | false =>
    obtain ⟨area, state⟩ := context.perform_of_not_selection selecting
    rw [state]

theorem select_scheme (context : Context) (convention : Convention) :
    (context.perform (.select convention)).state.scheme =
        (context.platform.scheme? convention).getD context.scheme ∧
      ((context.perform (.select convention)).result = .done ↔
        (context.platform.scheme? convention).isSome = true) := by
  cases found : context.platform.scheme? convention with
  | some scheme =>
    simp only [perform, context.select_of_scheme found]
    exact ⟨rfl, iff_of_true rfl rfl⟩
  | none =>
    simp only [perform, context.select_of_no_scheme found]
    exact ⟨rfl, iff_of_false Answer.noConfusion Bool.noConfusion⟩

/-- A selection succeeds if it asks for a convention that some scheme implements, and then this scheme
is in force; otherwise the scheme stays. -/
theorem perform_scheme (context : Context) (operation : Operation) :
    (context.perform operation).state.scheme =
        (operation.chosen? context.platform).getD context.scheme ∧
      (operation.isSelection = true → ((context.perform operation).result = .done ↔
        (operation.chosen? context.platform).isSome = true)) := by
  cases operation with
  | push | pushStruct | reset | invoke => exact ⟨rfl, fun selecting => Bool.noConfusion selecting⟩
  | select convention =>
    obtain ⟨scheme, succeeds⟩ := context.select_scheme convention
    exact ⟨scheme, fun _ => succeeds⟩
  | selectIdentifier identifier =>
    cases named : Convention.ofIdentifier? identifier with
    | some convention =>
      cases Convention.ofIdentifier?_eq_some_iff.mp named
      obtain ⟨scheme, succeeds⟩ := context.select_scheme convention
      rw [context.perform_selectIdentifier]
      simp only [Operation.chosen?, Operation.requested?, named]
      exact ⟨scheme, fun _ => succeeds⟩
    | none =>
      simp only [perform, selectIdentifier, Operation.chosen?, Operation.requested?, named]
      exact ⟨rfl, fun _ => iff_of_false Answer.noConfusion Bool.noConfusion⟩

/-- What operations make of a new context of the platform. -/
inductive Reachable (platform : Platform) : Context → Prop where
  | created {size : Nat} {created : Outcome Context Unit} :
      create platform size = .ok created → Reachable platform created.state
  | step {context : Context} (operation : Operation) :
      Reachable platform context → Reachable platform (context.perform operation).state

namespace Reachable

variable {platform : Platform} {context : Context}

theorem after (reachable : Reachable platform context) (operations : List Operation) :
    Reachable platform (context.after operations) := by
  induction operations generalizing context with
  | nil => exact reachable
  | cons operation rest ih => exact ih (.step operation reachable)

/-- The scheme of a context belongs to its convention. -/
theorem implemented (reachable : Reachable platform context) : context.platform = platform ∧
    platform.scheme? context.convention = some context.scheme := by
  have follows : ∃ history, Follows platform history context := by
    induction reachable with
    | created made => exact ⟨[], create_follows made⟩
    | step operation _ ih =>
      obtain ⟨history, follows⟩ := ih
      exact ⟨_, perform_follows follows operation⟩
  obtain ⟨history, follows⟩ := follows
  exact ⟨follows.origin, follows.scheme⟩

theorem area (reachable : Reachable platform context) :
    ArgumentArea.Reachable platform context.area := by
  induction reachable with
  | created made =>
    obtain ⟨area, opened, rfl⟩ := create_eq_ok made
    exact .empty opened
  | @step context operation _ ih =>
    rw [context.perform_area operation]
    exact .after ih _

end Reachable

end Context
end ForeignCall
