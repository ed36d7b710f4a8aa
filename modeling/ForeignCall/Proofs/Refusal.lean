import ForeignCall.Proofs.Placement
import ForeignCall.Proofs.Reachability

/-! Pushes that fail. Under an ordinary scheme the only one is a structure whose data has the wrong
length; a system call takes no structures, and scalars only while one of its six registers is left.
Every failure is found before anything is written. -/
namespace ForeignCall

namespace ArgumentArea

variable {scheme : Scheme} {classifier : Classifier}

theorem pushAggregate_of_length_ne (area : ArgumentArea) {layout : Layout} {data : List Byte}
    (different : data.length ≠ layout.size) : area.pushAggregate classifier layout data =
      .quiet area (.error (.fault (.dataLength data.length layout.size))) :=
  if_neg different

/-- A system call has a register for another word. -/
def SystemRoom (area : ArgumentArea) : Prop :=
  area.registers.used .integer < Scheme.syscallLimit ∧
    area.registers.used .integer < (area.registers.slots .integer).length

theorem pushSystem_of_room (area : ArgumentArea) (argument : Argument) (room : area.SystemRoom) :
    area.pushSystem argument =
      .quiet ⟨(area.registers.push .integer argument.word).2, area.stack⟩ (.ok ()) := by
  have placed := (area.registers.push_of_free .integer argument.word room.2).1
  rw [pushSystem, if_pos room.1]
  simp only [placed, if_true]

theorem pushSystem_of_no_room (area : ArgumentArea) (argument : Argument)
    (full : ¬area.SystemRoom) :
    area.pushSystem argument = .quiet area (.error (.fault .tooManyArguments)) := by
  unfold pushSystem
  split
  · next below =>
    have spent : (area.registers.slots .integer).length ≤ area.registers.used .integer :=
      Nat.not_lt.mp fun free => full ⟨below, free⟩
    rw [area.registers.push_of_full .integer _ spent]
    rfl
  · rfl

theorem no_systemRoom_iff {platform : Platform} {area : ArgumentArea}
    (sound : area.registers.Sound platform) : ¬area.SystemRoom ↔
      area.registers.used .integer = Scheme.syscallLimit ∨
      area.registers.used .integer = (area.registers.slots .integer).length := by
  have inside := sound.used .integer
  have most : (area.registers.slots .integer).length ≤ Scheme.syscallLimit := by
    rw [area.registers.slots_length]
    cases area.registers.platform <;> decide
  unfold SystemRoom
  omega

theorem pushAggregate_error_iff (area : ArgumentArea) (layout : Layout) (data : List Byte)
    (cause : Failure) : (area.pushAggregate classifier layout data).result = .error cause ↔
      data.length ≠ layout.size ∧ cause = .fault (.dataLength data.length layout.size) := by
  by_cases exact : data.length = layout.size
  · rw [(area.pushAggregate_granted classifier layout data exact).1]
    simp [exact]
  · rw [area.pushAggregate_of_length_ne exact]
    simp [Outcome.quiet, exact, eq_comm]

theorem pushSystem_error_iff (area : ArgumentArea) (argument : Argument) (cause : Failure) :
    (area.pushSystem argument).result = .error cause ↔
      ¬area.SystemRoom ∧ cause = .fault .tooManyArguments := by
  by_cases room : area.SystemRoom
  · rw [area.pushSystem_of_room argument room]
    simp [Outcome.quiet, room]
  · rw [area.pushSystem_of_no_room argument room]
    simp [Outcome.quiet, room, eq_comm]

theorem pushArgument_atomic (area : ArgumentArea) (scheme : Scheme) (argument : CallArgument)
    {cause : Failure} (failed : (area.pushArgument scheme argument).result = .error cause) :
    (area.pushArgument scheme argument).state = area := by
  have system (value : Argument) (failed : (area.pushSystem value).result = .error cause) :
      (area.pushSystem value).state = area := by
    rw [area.pushSystem_of_no_room value ((area.pushSystem_error_iff value cause).mp failed).1]
    rfl
  have aggregate (classifier : Classifier) (layout : Layout) (data : List Byte)
      (failed : (area.pushAggregate classifier layout data).result = .error cause) :
      (area.pushAggregate classifier layout data).state = area := by
    have different := ((area.pushAggregate_error_iff layout data cause).mp failed).1
    rw [area.pushAggregate_of_length_ne different]
    rfl
  cases argument with
  | scalar value =>
    cases scheme with
    | sysv | win64 => cases (area.pushGeneral_result value).symm.trans failed
    | syscall => exact system value failed
  | struct layout data =>
    cases scheme with
    | sysv => exact aggregate .sysv layout data failed
    | win64 => exact aggregate .win64 layout data failed
    | syscall => rfl

end ArgumentArea

/-- A push fails when it must and then leaves the whole area as it was. An ordinary call takes every
scalar, and every structure with as many bytes of data as its layout has. A system call takes no
structure, and a scalar while the counter is below six and below the last slot of the registers. -/
theorem failing_pushes_are_atomic {platform : Platform} {area : ArgumentArea}
    (reachable : ArgumentArea.Reachable platform area) :
    (∀ scheme argument cause, (area.pushArgument scheme argument).result = .error cause →
      (area.pushArgument scheme argument).state = area) ∧
    (∀ scheme, scheme = .sysv ∨ scheme = .win64 →
      (∀ value, (area.push scheme value).result = .ok ()) ∧
      ∀ layout data cause, (area.pushStruct scheme layout data).result = .error cause ↔
        data.length ≠ layout.size ∧ cause = .fault (.dataLength data.length layout.size)) ∧
    (∀ layout data,
      (area.pushStruct .syscall layout data).result = .error (.error .structUnsupported)) ∧
    ∀ value cause, (area.push .syscall value).result = .error cause ↔
      (area.registers.used .integer = 6 ∨
        area.registers.used .integer = (area.registers.slots .integer).length) ∧
      cause = .fault .tooManyArguments := by
  refine ⟨fun scheme argument cause => area.pushArgument_atomic scheme argument, ?_,
    fun _ _ => rfl, fun value cause => ?_⟩
  · rintro scheme (rfl | rfl)
    · exact ⟨area.pushGeneral_result, fun layout data => area.pushAggregate_error_iff layout data⟩
    · exact ⟨area.pushGeneral_result, fun layout data => area.pushAggregate_error_iff layout data⟩
  · rw [← show Scheme.syscallLimit = 6 from rfl, ← ArgumentArea.no_systemRoom_iff reachable.sound]
    exact area.pushSystem_error_iff value cause

/-- The fifth word of a system call finds no slot in four positions, and neither it nor a structure
of the wrong length leaves a trace. -/
theorem full_windows_area_refuses :
    ArgumentArea.Reachable .windows fullWindowsArea ∧
    (fullWindowsArea.push .syscall (.int 6)).result = .error (.fault .tooManyArguments) ∧
    (fullWindowsArea.push .syscall (.int 6)).state = fullWindowsArea ∧
    (fullWindowsArea.pushStruct .sysv ⟨0, 1, []⟩ [7]).result =
      .error (.fault (.dataLength 1 0)) ∧
    (fullWindowsArea.pushStruct .sysv ⟨0, 1, []⟩ [7]).state = fullWindowsArea := by
  obtain ⟨kept, general, -, system⟩ := failing_pushes_are_atomic fullWindowsArea_reachable
  have last : fullWindowsArea.registers.used .integer =
    (fullWindowsArea.registers.slots .integer).length := rfl
  have spent := (system (.int 6) _).mpr ⟨.inr last, rfl⟩
  have short := ((general .sysv (.inl rfl)).2 ⟨0, 1, []⟩ [7] _).mpr ⟨nofun, rfl⟩
  exact ⟨fullWindowsArea_reachable, spent, kept .syscall (.scalar (.int 6)) _ spent, short,
    kept .sysv (.struct ⟨0, 1, []⟩ [7]) _ short⟩

end ForeignCall
