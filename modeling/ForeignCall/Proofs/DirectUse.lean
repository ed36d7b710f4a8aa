import Mathlib.Logic.Relation
import ForeignCall.Proofs.Course

/-! Contexts and the direct use of argument areas. What a context does to its area is what its pushes
and resets do to an area of their own, each under the scheme that was in force when its turn came.
Selections do nothing else, so those that leave the scheme as it is can come and go. -/
namespace ForeignCall.Context

/-- The scheme of the last selection that succeeded, if there was one. -/
def lastChosen (platform : Platform) (start : Scheme) (operations : List Operation) : Scheme :=
  (operations.filterMap (Operation.chosen? platform)).getLast?.getD start

def inForce (platform : Platform) (operations : List Operation) : Scheme :=
  lastChosen platform platform.general operations

/-- The pushes and resets of some operations, each under the scheme in force before it. -/
def direct (platform : Platform) (scheme : Scheme) : List Operation → List ArgumentArea.Operation
  | [] => []
  | operation :: rest =>
    (operation.direct? scheme).toList ++
      direct platform ((operation.chosen? platform).getD scheme) rest

theorem lastChosen_cons (platform : Platform) (start : Scheme) (operation : Operation)
    (rest : List Operation) : lastChosen platform start (operation :: rest) =
      lastChosen platform ((operation.chosen? platform).getD start) rest := by
  unfold lastChosen
  cases chosen : operation.chosen? platform with
  | none => rw [List.filterMap_cons_none chosen, Option.getD_none]
  | some scheme =>
    rw [List.filterMap_cons_some chosen, List.getLast?_cons, Option.getD_some, Option.getD_some]

theorem lastChosen_append (platform : Platform) (start : Scheme) (before rest : List Operation) :
    lastChosen platform start (before ++ rest) =
      lastChosen platform (lastChosen platform start before) rest := by
  induction before generalizing start with
  | nil => rfl
  | cons operation before ih =>
    rw [List.cons_append, lastChosen_cons, lastChosen_cons, ih]

theorem direct_append (platform : Platform) (scheme : Scheme) (before rest : List Operation) :
    direct platform scheme (before ++ rest) = direct platform scheme before ++
      direct platform (lastChosen platform scheme before) rest := by
  induction before generalizing scheme with
  | nil => rfl
  | cons operation before ih =>
    rw [List.cons_append, direct, direct, ih, lastChosen_cons, List.append_assoc]

theorem after_direct (context : Context) (operations : List Operation) :
    (context.after operations).area =
        context.area.after (direct context.platform context.scheme operations) ∧
      (context.after operations).scheme =
        lastChosen context.platform context.scheme operations := by
  induction operations generalizing context with
  | nil => exact ⟨rfl, rfl⟩
  | cons operation rest ih =>
    obtain ⟨area, scheme⟩ := ih (context.perform operation).state
    rw [context.perform_platform, (context.perform_scheme operation).1] at area scheme
    rw [context.perform_area] at area
    refine ⟨area.trans ?_, scheme.trans (lastChosen_cons ..).symm⟩
    rw [direct, ArgumentArea.after_append]

/-- One more selection, which fails or asks for the scheme that is in force anyway. -/
inductive InsertsIdle (platform : Platform) : List Operation → List Operation → Prop
  | insert (before rest : List Operation) (selection : Operation)
      (selecting : selection.isSelection = true)
      (idle : selection.chosen? platform = none ∨
        selection.chosen? platform = some (inForce platform before)) :
      InsertsIdle platform (before ++ rest) (before ++ selection :: rest)

/-- Sequences that idle selections, inserted and deleted, lead from one to the other. -/
def Interchangeable (platform : Platform) : List Operation → List Operation → Prop :=
  Relation.EqvGen (InsertsIdle platform)

/-- What a sequence does to the argument area of a new context, and which scheme it leaves. -/
def effect (platform : Platform) (operations : List Operation) :
    List ArgumentArea.Operation × Scheme :=
  (direct platform platform.general operations, inForce platform operations)

theorem InsertsIdle.effect_eq {platform : Platform} {first second : List Operation}
    (inserted : InsertsIdle platform first second) :
    effect platform first = effect platform second := by
  obtain ⟨before, rest, selection, selecting, idle⟩ := inserted
  have unchanged : (selection.chosen? platform).getD (inForce platform before) =
      inForce platform before := by
    rcases idle with none | same
    · rw [none, Option.getD_none]
    · rw [same, Option.getD_some]
  unfold inForce at unchanged
  simp only [effect, inForce, direct_append, lastChosen_append, lastChosen_cons, direct,
    unchanged, Operation.direct?_of_selection selecting, Option.toList_none, List.nil_append]

theorem Interchangeable.effect_eq {platform : Platform} {first second : List Operation}
    (interchangeable : Interchangeable platform first second) :
    effect platform first = effect platform second := by
  induction interchangeable with
  | rel first second inserted => exact inserted.effect_eq
  | refl operations => rfl
  | symm first second _ ih => exact ih.symm
  | trans first second third _ _ early late => exact early.trans late

/-- What an invocation finds and returns is up to the argument area and the scheme in force. -/
theorem invoke_congr {first second : Context} (area : first.area = second.area)
    (scheme : first.scheme = second.scheme) (site : CallSite) (target : Word)
    (callee : X64.Machine → Option X64.Machine) :
    first.invoke site target callee = second.invoke site target callee := by
  rw [invoke, invoke, area, scheme]

theorem created_after_direct {platform : Platform} {size : Nat}
    {created : Outcome Context Unit} (made : create platform size = .ok created) :
    ∃ area, ArgumentArea.empty platform (roomOf platform size) = .ok area ∧
      ∀ operations, (created.state.after operations).area =
          area.after (direct platform platform.general operations) ∧
        (created.state.after operations).scheme = inForce platform operations := by
  obtain ⟨area, opened, rfl⟩ := create_eq_ok made
  exact ⟨area, opened, after_direct _⟩

/-- A new context is a new argument area with the scheme of the platform's ordinary calls. From then
on every push and every reset gives the result and the records, and leaves the registers and the
stack, that the same step gives and leaves on the area itself, under the scheme that was last
selected with success. Sequences that differ by idle selections alone end with the same arguments,
and no callee can tell them apart. -/
theorem contexts_use_areas {platform : Platform} {size : Nat} {created : Outcome Context Unit}
    (made : create platform size = .ok created) :
    ∃ area, ArgumentArea.empty platform (size - RegisterFile.areaSize platform) = .ok area ∧
    (∀ operations,
      let context := created.state.after operations
      let directly := area.after (direct platform platform.general operations)
      context.area = directly ∧ context.scheme = inForce platform operations ∧
      (∀ operation step, operation.direct? (inForce platform operations) = some step →
        SameAnswer (context.perform operation).result (directly.perform step).result ∧
        (context.perform operation).records = (directly.perform step).records ∧
        (context.perform operation).state.area = (directly.perform step).state) ∧
      ∀ selection, selection.isSelection = true →
        ((context.perform selection).result = .done ↔
          (selection.chosen? platform).isSome = true)) ∧
    ∀ first second, Interchangeable platform first second →
      (created.state.after first).area = (created.state.after second).area ∧
      ∀ site target callee,
        (created.state.after first).invoke site target callee =
          (created.state.after second).invoke site target callee ∧
        ((created.state.after first).invoke site target callee).map
            (created.state.after first).area.calleeView =
          ((created.state.after second).invoke site target callee).map
            (created.state.after second).area.calleeView := by
  obtain ⟨area, opened, shown⟩ := created_after_direct made
  refine ⟨area, opened, fun operations => ?_, fun first second interchangeable => ?_⟩
  · obtain ⟨same, scheme⟩ := shown operations
    have origin := ((Reachable.created made).after operations).implemented.1
    refine ⟨same, scheme, fun operation step backed => ?_, fun selection selecting => ?_⟩
    · rw [← scheme] at backed
      obtain ⟨answer, records, state⟩ := perform_direct _ backed
      rw [same] at answer records state
      exact ⟨answer, records, congrArg Context.area state⟩
    · have succeeds := ((created.state.after operations).perform_scheme selection).2 selecting
      rwa [origin] at succeeds
  · obtain ⟨steps, scheme⟩ := Prod.mk.inj interchangeable.effect_eq
    have areas : (created.state.after first).area = (created.state.after second).area := by
      rw [(shown first).1, (shown second).1, steps]
    have schemes : (created.state.after first).scheme = (created.state.after second).scheme := by
      rw [(shown first).2, (shown second).2, scheme]
    refine ⟨areas, fun site target callee => ?_⟩
    have invoked := invoke_congr areas schemes site target callee
    exact ⟨invoked, by rw [invoked, areas]⟩

def plainCall : List Operation := [.push (.pointer 0x1000), .push (.int 42), .push (.double 7)]

def variadicCall : List Operation := [
  .select .ellipsis, .push (.pointer 0x1000), .selectIdentifier 101, .push (.int 42),
  .select .arm64, .push (.double 7)]

theorem variadicCall_interchangeable : Interchangeable .unix plainCall variadicCall := by
  have first : InsertsIdle .unix plainCall (.select .ellipsis :: plainCall) :=
    .insert [] plainCall _ rfl (.inr rfl)
  have second : InsertsIdle .unix (.select .ellipsis :: plainCall) [.select .ellipsis,
      .push (.pointer 0x1000), .selectIdentifier 101, .push (.int 42), .push (.double 7)] :=
    .insert [.select .ellipsis, .push (.pointer 0x1000)] [.push (.int 42), .push (.double 7)]
      _ rfl (.inr rfl)
  have third : InsertsIdle .unix [.select .ellipsis, .push (.pointer 0x1000),
      .selectIdentifier 101, .push (.int 42), .push (.double 7)] variadicCall :=
    .insert [.select .ellipsis, .push (.pointer 0x1000), .selectIdentifier 101, .push (.int 42)]
      [.push (.double 7)] _ rfl (.inl rfl)
  exact .trans _ _ _ (.rel _ _ first) (.trans _ _ _ (.rel _ _ second) (.rel _ _ third))

theorem variadic_call_is_plain :
    ∃ created, create .unix 4096 = .ok created ∧ Interchangeable .unix plainCall variadicCall ∧
      (created.state.after plainCall).area = (created.state.after variadicCall).area ∧
      (created.state.after variadicCall).area.registers.filled .integer = [0x1000, 42] ∧
      (created.state.after variadicCall).area.registers.filled .float = [7] := by
  obtain ⟨created, made⟩ : ∃ created, create .unix 4096 = .ok created := ⟨_, rfl⟩
  obtain ⟨area, opened, shown, alike⟩ := contexts_use_areas made
  cases opened
  have same := (alike plainCall variadicCall variadicCall_interchangeable).1
  refine ⟨created, made, variadicCall_interchangeable, same, ?_, ?_⟩
  · rw [(shown variadicCall).1]
    rfl
  · rw [(shown variadicCall).1]
    rfl

end ForeignCall.Context
