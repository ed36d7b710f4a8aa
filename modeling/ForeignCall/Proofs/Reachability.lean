import ForeignCall.Proofs.Growth

/-! Areas that operations lead to. An operation either pushes words and appends bytes or empties a
part of the area. So the registers stay those of the platform, no counter passes the last slot, and
between resets an area only grows. -/
namespace ForeignCall

/-- Slots for the words of a class. -/
def Platform.slotCount : Platform → RegisterClass → Nat
  | unix, .integer => integerSlots
  | unix, .float => floatSlots
  | windows, _ => sharedSlots

theorem SlotRow.push_used_le {row : SlotRow n} (inside : row.used ≤ n) (word : Word) :
    (row.push word).2.used ≤ n := by
  by_cases free : row.used < n
  · rw [push_of_free free]
    exact free
  · rw [push_of_full (Nat.not_lt.mp free)]
    exact inside

namespace RegisterFile

def platform : RegisterFile → Platform
  | separate .. => .unix
  | shared _ => .windows

variable {platform : Platform}

/-- The words that the current call has put into slots of a class. -/
def filled (file : RegisterFile) (kind : RegisterClass) : List Word :=
  (file.slots kind).take (file.used kind)

/-- Registers of a platform, with no counter past the last slot. -/
structure Sound (platform : Platform) (file : RegisterFile) : Prop where
  serves : file.platform = platform
  used : ∀ kind, file.used kind ≤ (file.slots kind).length

/-- The counters are back at zero; the words are where they were. -/
structure Emptied (earlier later : RegisterFile) : Prop where
  used : ∀ kind, later.used kind = 0
  kept : ∀ kind, later.slots kind = earlier.slots kind

theorem slots_length (file : RegisterFile) (kind : RegisterClass) :
    (file.slots kind).length = file.platform.slotCount kind := by
  cases file <;> cases kind <;> exact Vector.length_toList

/-- On Windows both classes read one row. -/
theorem Sound.shared {file : RegisterFile} (sound : Sound .windows file) :
    file.used .float = file.used .integer ∧ file.slots .float = file.slots .integer := by
  cases file with
  | separate integers floats => cases sound.serves
  | shared row => exact ⟨rfl, rfl⟩

theorem Sound.shared_remaining {file : RegisterFile} (sound : Sound .windows file) :
    file.remaining .float = file.remaining .integer := by
  rw [remaining, remaining, sound.shared.1, sound.shared.2]

theorem Sound.used_add_remaining {file : RegisterFile} (sound : Sound platform file)
    (kind : RegisterClass) :
    file.used kind + file.remaining kind = (file.slots kind).length :=
  Nat.add_sub_cancel' (sound.used kind)

theorem Extends.filled {earlier later : RegisterFile} (growth : earlier.Extends later)
    (kind : RegisterClass) : earlier.filled kind <+: later.filled kind := by
  have same : earlier.filled kind = (later.slots kind).take (earlier.used kind) := by
    apply List.ext_getElem?
    intro i
    simp only [RegisterFile.filled, List.getElem?_take]
    split
    · next below => exact (growth.kept kind i (.inl below)).symm
    · rfl
  rw [same]
  exact List.take_prefix_take_left (growth.used kind)

@[simp] theorem push_platform (file : RegisterFile) (kind : RegisterClass) (word : Word) :
    (file.push kind word).2.platform = file.platform := by
  cases file <;> cases kind <;> rfl

/-- With a slot free, a push counts for its class, and for either class where they share a row. -/
theorem push_used_of_free (file : RegisterFile) {kind : RegisterClass} (word : Word)
    (free : file.used kind < (file.slots kind).length) (other : RegisterClass) :
    (file.push kind word).2.used other =
      file.used other + if file.platform = .windows ∨ other = kind then 1 else 0 := by
  cases file with
  | separate integers floats =>
    cases kind <;> simp only [used, slots, Vector.length_toList] at free <;> cases other <;>
      simp [platform, used, SlotRow.push_of_free free]
  | shared row =>
    have room : row.used < sharedSlots := by
      cases kind <;> simpa only [used, slots, Vector.length_toList] using free
    cases other <;> simp [platform, used, SlotRow.push_of_free room]

theorem empty_sound (platform : Platform) : Sound platform (.empty platform) := by
  cases platform <;> exact ⟨rfl, fun kind => by cases kind <;> exact Nat.zero_le _⟩

theorem reset_emptied (file : RegisterFile) : file.Emptied file.reset := by
  cases file <;> exact ⟨fun kind => by cases kind <;> rfl, fun kind => by cases kind <;> rfl⟩

theorem reset_sound {file : RegisterFile} (sound : Sound platform file) :
    Sound platform file.reset := by
  refine ⟨?_, fun kind => ?_⟩
  · cases file <;> exact sound.serves
  · rw [file.reset_emptied.used kind]
    exact Nat.zero_le _

theorem push_sound {file : RegisterFile} (sound : Sound platform file) (kind : RegisterClass)
    (word : Word) : Sound platform (file.push kind word).2 := by
  refine ⟨file.push_platform kind word ▸ sound.serves, fun other => ?_⟩
  have inside := sound.used other
  rw [slots_length] at inside ⊢
  rw [push_platform]
  cases file with
  | separate integers floats =>
    cases kind with
    | integer =>
      cases other with
      | integer => exact SlotRow.push_used_le inside word
      | float => exact inside
    | float =>
      cases other with
      | integer => exact inside
      | float => exact SlotRow.push_used_le inside word
  | shared row =>
    rw [push_shared]
    cases other <;> exact SlotRow.push_used_le inside word

theorem pushAll_sound {file : RegisterFile} (sound : Sound platform file)
    (words : List (RegisterClass × Word)) : Sound platform (file.pushAll words) := by
  induction words generalizing file with
  | nil => exact sound
  | cons head rest ih => exact ih (push_sound sound head.1 head.2)

end RegisterFile

namespace ArgumentArea

variable {platform : Platform}

def Operation.isReset : Operation → Bool
  | .reset | .resetRegisters | .resetStack => true
  | _ => false

theorem perform_adds (area : ArgumentArea) {operation : Operation}
    (adding : operation.isReset = false) : area.Adds (area.perform operation).state := by
  cases operation with
  | push scheme argument => exact area.push_adds scheme argument
  | pushStruct scheme layout data => exact area.pushStruct_adds scheme layout data
  | classify classifier layout data =>
    obtain ⟨words, placed⟩ := area.registers.classify_pushAll classifier layout data
    simp only [perform, Outcome.within, Outcome.mapResult, placed]
    exact area.adds_words words
  | pushWord kind word => exact area.adds_words [(kind, word)]
  | append bytes => exact ⟨[], bytes, rfl, rfl⟩
  | reset | resetRegisters | resetStack => cases adding

theorem perform_sound {area : ArgumentArea} (sound : area.registers.Sound platform)
    (operation : Operation) : (area.perform operation).state.registers.Sound platform := by
  cases kind : operation.isReset with
  | false =>
    obtain ⟨words, _, registers, _⟩ := area.perform_adds kind
    exact registers ▸ RegisterFile.pushAll_sound sound words
  | true =>
    cases operation with
    | reset | resetRegisters => exact RegisterFile.reset_sound sound
    | resetStack => exact sound
    | push | pushStruct | classify | pushWord | append => cases kind

/-- What operations make of an empty area of the platform. -/
inductive Reachable (platform : Platform) : ArgumentArea → Prop where
  | empty {room : Nat} {area : ArgumentArea} :
      ArgumentArea.empty platform room = .ok area → Reachable platform area
  | step {area : ArgumentArea} (operation : Operation) :
      Reachable platform area → Reachable platform (area.perform operation).state

theorem empty_eq_ok {room : Nat} {area : ArgumentArea}
    (made : ArgumentArea.empty platform room = .ok area) :
    area = ⟨.empty platform, ⟨[], room, false⟩⟩ := by
  unfold ArgumentArea.empty ArgumentStack.reserve at made
  split at made <;> cases made
  rfl

theorem Reachable.sound {area : ArgumentArea} (reachable : Reachable platform area) :
    area.registers.Sound platform := by
  induction reachable with
  | empty made =>
    rw [empty_eq_ok made]
    exact RegisterFile.empty_sound platform
  | step operation _ ih => exact perform_sound ih operation

/-- The area after some operations, whether or not they succeed. -/
def after (area : ArgumentArea) (operations : List Operation) : ArgumentArea :=
  operations.foldl (fun area operation => (area.perform operation).state) area

theorem Reachable.after {area : ArgumentArea} (reachable : Reachable platform area)
    (operations : List Operation) : Reachable platform (area.after operations) := by
  induction operations generalizing area with
  | nil => exact reachable
  | cons operation rest ih => exact ih (.step operation reachable)

end ArgumentArea

/-- Whatever has been done to an area, its counters are within their rows, and on Windows both
classes see the same slots. A further operation adds to what is there and disturbs nothing, unless
it is a reset, which empties what it is for and keeps the words in the slots. -/
theorem areas_grow_between_resets {platform : Platform} {area : ArgumentArea}
    (reachable : ArgumentArea.Reachable platform area) :
    (∀ kind, area.registers.used kind ≤ (area.registers.slots kind).length ∧
      area.registers.used kind + area.registers.remaining kind =
        (area.registers.slots kind).length) ∧
    (platform = .windows → area.registers.used .float = area.registers.used .integer ∧
      area.registers.slots .float = area.registers.slots .integer) ∧
    (∀ operation, operation.isReset = false → area.Extends (area.perform operation).state ∧
      ∀ kind, area.registers.filled kind <+:
        (area.perform operation).state.registers.filled kind) ∧
    (area.registers.Emptied (area.perform .reset).state.registers ∧
      (area.perform .reset).state.stack.bytes = []) ∧
    (area.registers.Emptied (area.perform .resetRegisters).state.registers ∧
      (area.perform .resetRegisters).state.stack = area.stack) ∧
    (area.perform .resetStack).state.registers = area.registers ∧
      (area.perform .resetStack).state.stack.bytes = [] := by
  have sound := reachable.sound
  refine ⟨fun kind => ⟨sound.used kind, sound.used_add_remaining kind⟩, ?_, ?_,
    ⟨area.registers.reset_emptied, rfl⟩, ⟨area.registers.reset_emptied, rfl⟩, rfl, rfl⟩
  · rintro rfl
    exact sound.shared
  · intro operation adding
    have growth := (area.perform_adds adding).extends
    exact ⟨growth, growth.registers.filled⟩

/-- Four positions taken under three schemes, the last by a structure, and a push too many. -/
def fullWindowsArea : ArgumentArea :=
  ArgumentArea.after ⟨.empty .windows, ⟨[], 16, false⟩⟩ [
    .pushWord .float 1, .push .sysv (.double 2), .push .syscall (.int 3),
    .pushStruct .win64 ⟨4, 4, [⟨⟨.scalar .int, 1⟩, 0⟩]⟩ [4, 0, 0, 0], .push .syscall (.int 5)]

theorem fullWindowsArea_reachable : ArgumentArea.Reachable .windows fullWindowsArea := by
  have made : ArgumentArea.empty .windows 16 = .ok ⟨.empty .windows, ⟨[], 16, false⟩⟩ := rfl
  exact .after (.empty made) _

theorem full_windows_area_grows :
    ArgumentArea.Reachable .windows fullWindowsArea ∧
    fullWindowsArea.registers.used .integer + fullWindowsArea.registers.remaining .integer = 4 ∧
    fullWindowsArea.registers.used .float = fullWindowsArea.registers.used .integer ∧
    fullWindowsArea.Extends (fullWindowsArea.perform (.push .win64 (.char 6))).state := by
  obtain ⟨within, shared, grows, -⟩ := areas_grow_between_resets fullWindowsArea_reachable
  refine ⟨fullWindowsArea_reachable, ?_, (shared rfl).1, (grows _ rfl).1⟩
  exact (within .integer).2

end ForeignCall
