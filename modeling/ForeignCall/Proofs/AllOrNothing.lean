import Mathlib.Data.List.Perm.Subperm
import ForeignCall.Layout.Declaration
import ForeignCall.Proofs.Eightbyte
import ForeignCall.Proofs.Reachability

/-! Aggregates in registers, whole or not at all. System V checks the room for each class before it
pushes the words of an aggregate, and on its own registers that is enough. On a row that both classes
share, the last slot counts as room for either, so an aggregate that asks for one register of each
class is torn: its first word takes the slot and the other is lost. -/
namespace ForeignCall

namespace SlotRow

def pushAll (row : SlotRow n) (words : List Word) : SlotRow n :=
  words.foldl (fun row word => (row.push word).2) row

/-- The words that the current call has put into the row. -/
def filled (row : SlotRow n) : List Word := row.slots.toList.take row.used

theorem filled_length {row : SlotRow n} (inside : row.used ≤ n) : row.filled.length = row.used := by
  rw [filled, List.length_take, Vector.length_toList, Nat.min_eq_left inside]

theorem push_filled {row : SlotRow n} (free : row.used < n) (word : Word) :
    (row.push word).2.filled = row.filled ++ [word] := by
  rw [push_of_free free]
  simp only [filled, Vector.toList_set, List.take_add_one]
  simp [List.take_set_of_le, free]

theorem pushAll_filled (row : SlotRow n) (words : List Word) :
    (row.pushAll words).filled = row.filled ++ words.take (n - row.used) := by
  induction words generalizing row with
  | nil => simp [pushAll]
  | cons word rest ih =>
    show ((row.push word).2.pushAll rest).filled = _
    rw [ih]
    by_cases free : row.used < n
    · have slots : n - row.used = n - (row.used + 1) + 1 := by omega
      rw [push_filled free, push_of_free free, slots, List.take_succ_cons]
      simp
    · have none : n - row.used = 0 := by omega
      rw [push_of_full (Nat.not_lt.mp free), none]
      simp

theorem pushAll_used (row : SlotRow n) (words : List Word) :
    (row.pushAll words).used = row.used + min (n - row.used) words.length := by
  induction words generalizing row with
  | nil => exact (congrArg (row.used + ·) (Nat.min_zero _)).symm
  | cons word rest ih =>
    show ((row.push word).2.pushAll rest).used = _
    rw [ih, List.length_cons]
    by_cases free : row.used < n
    · rw [push_of_free free]
      show row.used + 1 + min (n - (row.used + 1)) rest.length = _
      omega
    · rw [push_of_full (Nat.not_lt.mp free)]
      show row.used + min (n - row.used) rest.length = _
      omega

end SlotRow

/-- The words of a list that are for registers of a class. -/
def wordsOfClass (kind : RegisterClass) (words : List (RegisterClass × Word)) : List Word :=
  (words.filter fun word => word.1 = kind).map Prod.snd

theorem wordsOfClass_cons (kind : RegisterClass) (head : RegisterClass × Word)
    (rest : List (RegisterClass × Word)) : wordsOfClass kind (head :: rest) =
      if head.1 = kind then head.2 :: wordsOfClass kind rest else wordsOfClass kind rest := by
  simp only [wordsOfClass, List.filter_cons, decide_eq_true_eq]
  split <;> rfl

theorem wordsOfClass_length (kind : RegisterClass) {kinds : List RegisterClass}
    {words : List Word} (lengths : words.length = kinds.length) :
    (wordsOfClass kind (kinds.zip words)).length = kinds.count kind := by
  induction kinds generalizing words with
  | nil => simp [wordsOfClass]
  | cons head rest ih =>
    obtain ⟨word, words, rfl⟩ := List.exists_cons_of_length_eq_add_one lengths
    rw [List.zip_cons_cons, wordsOfClass_cons, List.count_cons, ← ih (Nat.succ.inj lengths)]
    by_cases same : head = kind <;> simp [same]

theorem wordsOfClass_perm (words : List (RegisterClass × Word)) :
    (wordsOfClass .integer words ++ wordsOfClass .float words).Perm (words.map Prod.snd) := by
  have others : words.filter (fun word => word.1 = .float) =
      words.filter fun word => !decide (word.1 = .integer) :=
    List.filter_congr fun word _ => by cases word.1 <;> rfl
  rw [wordsOfClass, wordsOfClass, others, ← List.map_append]
  exact (List.filter_append_perm _ words).map Prod.snd

/-- A System V aggregate that has room for each of its classes is granted all its registers. -/
theorem Classifier.granted_sysv_cases (remaining : RegisterClass → Nat) (layout : Layout) :
    Classifier.sysv.granted remaining layout = [] ∨
    Classifier.sysv.granted remaining layout = layout.eightbyteClasses ∧
      (0 < layout.size ∧ layout.size ≤ 16 ∧ (∀ piece ∈ layout.pieces, piece.aligned) ∧
        layout.eightbyteClasses.count .integer ≤ remaining .integer ∧
        layout.eightbyteClasses.count .float ≤ remaining .float) := by
  simp only [Classifier.granted]
  split
  · next fits => exact .inr ⟨rfl, fits⟩
  · exact .inl rfl

theorem RegisterClass.mixed_iff (kinds : List RegisterClass) :
    kinds = [.integer, .float] ∨ kinds = [.float, .integer] ↔
      kinds.count .integer = 1 ∧ kinds.count .float = 1 := by
  constructor
  · rintro (rfl | rfl) <;> decide
  · rintro ⟨integers, floats⟩
    have two := RegisterClass.count_add_count kinds
    rw [integers, floats] at two
    obtain ⟨first, second, rfl⟩ := List.length_eq_two.mp two.symm
    cases first <;> cases second
    · exact absurd integers (by decide)
    · exact .inl rfl
    · exact .inr rfl
    · exact absurd floats (by decide)

theorem wordsOf_length_eq {layout : Layout} {data : List Byte} (exact : data.length = layout.size) :
    (wordsOf data).length = layout.eightbyteClasses.length := by
  rw [wordsOf_length, exact, Layout.eightbyteClasses, List.length_map, List.length_range]

namespace RegisterFile

theorem pushAll_separate (integers floats) (words : List (RegisterClass × Word)) :
    (separate integers floats).pushAll words =
      separate (integers.pushAll (wordsOfClass .integer words))
        (floats.pushAll (wordsOfClass .float words)) := by
  induction words generalizing integers floats with
  | nil => rfl
  | cons head rest ih =>
    obtain ⟨kind, word⟩ := head
    rw [pushAll, wordsOfClass_cons, wordsOfClass_cons]
    cases kind with
    | integer => exact ih (integers.push word).2 floats
    | float => exact ih integers (floats.push word).2

theorem pushAll_shared (row) (words : List (RegisterClass × Word)) :
    (shared row).pushAll words = shared (row.pushAll (words.map Prod.snd)) := by
  induction words generalizing row with
  | nil => rfl
  | cons head rest ih =>
    rw [pushAll, push_shared]
    exact ih (row.push head.2).2

/-- The words in the slots that have been filled in between. On Windows both classes read one row,
whose slots count once. -/
def fresh (earlier later : RegisterFile) : List Word :=
  match later.platform with
  | .unix => (later.filled .integer).drop (earlier.used .integer) ++
      (later.filled .float).drop (earlier.used .float)
  | .windows => (later.filled .integer).drop (earlier.used .integer)

/-- Nothing has changed, or each of the words is in a newly filled slot of its own. -/
def WholeOrNothing (earlier later : RegisterFile) (words : List Word) : Prop :=
  later = earlier ∨ words.Subperm (earlier.fresh later)

/-- One slot is left, which counts for both classes, and the aggregate needs one of each. -/
def Tears (file : RegisterFile) (layout : Layout) : Prop :=
  file.platform = .windows ∧ file.remaining .integer = 1 ∧
    layout.size ≤ 16 ∧ (∀ piece ∈ layout.pieces, piece.aligned) ∧
    (layout.eightbyteClasses = [.integer, .float] ∨ layout.eightbyteClasses = [.float, .integer])

theorem fresh_pushAll_separate {integers floats} {words : List (RegisterClass × Word)}
    (sound : Sound .unix (separate integers floats)) :
    (separate integers floats).fresh ((separate integers floats).pushAll words) =
      (wordsOfClass .integer words).take (integerSlots - integers.used) ++
        (wordsOfClass .float words).take (floatSlots - floats.used) := by
  have inside := sound.used
  simp only [slots_length] at inside
  have first := SlotRow.filled_length (inside .integer)
  have second := SlotRow.filled_length (inside .float)
  rw [pushAll_separate]
  show (integers.pushAll _).filled.drop integers.used ++
    (floats.pushAll _).filled.drop floats.used = _
  rw [SlotRow.pushAll_filled, SlotRow.pushAll_filled, List.drop_left' first, List.drop_left' second]

theorem fresh_pushAll_shared {row} {words : List (RegisterClass × Word)}
    (sound : Sound .windows (shared row)) :
    (shared row).fresh ((shared row).pushAll words) =
      (words.map Prod.snd).take (sharedSlots - row.used) := by
  have inside := sound.used .integer
  rw [slots_length] at inside
  rw [pushAll_shared]
  show (row.pushAll _).filled.drop row.used = _
  rw [SlotRow.pushAll_filled, List.drop_left' (SlotRow.filled_length inside)]

variable {layout : Layout} {data : List Byte}

theorem classify_sysv_state (file : RegisterFile) (exact : data.length = layout.size) :
    (file.classify .sysv layout data).state =
      file.pushAll ((Classifier.sysv.granted file.remaining layout).zip (wordsOf data)) := by
  have placed := (file.classify_granted .sysv layout data (Nat.le_of_eq exact.symm)).2
  rwa [← exact, List.take_length] at placed

/-- On System V registers the room of one class is no business of the other. -/
theorem sysv_whole_on_unix {file : RegisterFile} (sound : Sound .unix file)
    (exact : data.length = layout.size) :
    file.WholeOrNothing (file.classify .sysv layout data).state (wordsOf data) := by
  rw [classify_sysv_state file exact]
  have lengths := wordsOf_length_eq exact
  rcases Classifier.granted_sysv_cases file.remaining layout with
    none | ⟨whole, -, -, -, integers, floats⟩
  · rw [none]
    exact .inl rfl
  cases file with
  | shared row => cases sound.serves
  | separate ints singles =>
    rw [whole, WholeOrNothing, fresh_pushAll_separate sound]
    simp only [remaining, slots, used, Vector.length_toList] at integers floats
    rw [List.take_of_length_le (by rwa [wordsOfClass_length _ lengths]),
      List.take_of_length_le (by rwa [wordsOfClass_length _ lengths])]
    have both := wordsOfClass_perm (layout.eightbyteClasses.zip (wordsOf data))
    rw [List.map_snd_zip (Nat.le_of_eq lengths)] at both
    exact .inr both.symm.subperm

/-- On Windows an aggregate with room for each class gets as many slots as there are. -/
theorem sysv_fresh_on_windows {file : RegisterFile} (sound : Sound .windows file)
    (exact : data.length = layout.size)
    (whole : Classifier.sysv.granted file.remaining layout = layout.eightbyteClasses) :
    file.fresh (file.classify .sysv layout data).state =
      (wordsOf data).take (file.remaining .integer) := by
  rw [classify_sysv_state file exact, whole]
  cases file with
  | separate integers floats => cases sound.serves
  | shared row =>
    rw [fresh_pushAll_shared sound,
      List.map_snd_zip (Nat.le_of_eq (wordsOf_length_eq exact))]
    simp only [remaining, slots, used, Vector.length_toList]

theorem fresh_self {file : RegisterFile} : file.fresh file = [] := by
  have none (kind : RegisterClass) : (file.filled kind).drop (file.used kind) = [] :=
    List.drop_of_length_le (List.length_take_le _ _)
  rw [fresh, none, none]
  cases file.platform <;> rfl

theorem Tears.granted {file : RegisterFile} (torn : file.Tears layout)
    (shared : file.remaining .float = file.remaining .integer) :
    Classifier.sysv.granted file.remaining layout = layout.eightbyteClasses := by
  obtain ⟨_, one, small, aligned, mixed⟩ := torn
  obtain ⟨integers, floats⟩ := (RegisterClass.mixed_iff _).mp mixed
  have two := RegisterClass.count_add_count layout.eightbyteClasses
  rw [integers, floats] at two
  simp only [Layout.eightbyteClasses, List.length_map, List.length_range, slotBytes] at two
  exact if_pos ⟨by omega, small, aligned, by omega, by omega⟩

/-- With one row for both classes, the room of either class is enough for all words or it is a
single slot that two words want. -/
theorem sysv_whole_on_windows_iff {file : RegisterFile} (sound : Sound .windows file)
    (exact : data.length = layout.size) :
    file.WholeOrNothing (file.classify .sysv layout data).state (wordsOf data) ↔
      ¬file.Tears layout := by
  have shared := sound.shared_remaining
  have lengths := wordsOf_length_eq exact
  have total := RegisterClass.count_add_count layout.eightbyteClasses
  have count := wordsOf_length data
  simp only [exact, slotBytes] at count
  rcases Classifier.granted_sysv_cases file.remaining layout with
    none | ⟨whole, positive, small, aligned, integers, floats⟩
  · have same : (file.classify .sysv layout data).state = file := by
      rw [classify_sysv_state file exact, none]
      rfl
    refine iff_of_true (.inl same) fun torn => ?_
    rw [← torn.granted shared, none] at total
    obtain ⟨one, -⟩ := (RegisterClass.mixed_iff _).mp torn.2.2.2.2
    rw [← torn.granted shared, none] at one
    cases one
  have fresh := sysv_fresh_on_windows sound exact whole
  -- The room of the row bounds each class by itself and the words only together. Two words at most
  -- can exceed it without either class doing so just if there is one of each and a single slot.
  by_cases room : (wordsOf data).length ≤ file.remaining .integer
  · have all : file.fresh (file.classify .sysv layout data).state = wordsOf data := by
      rw [fresh, List.take_of_length_le room]
    refine iff_of_true (.inr (all ▸ List.Subperm.refl _)) fun torn => ?_
    have mixed := (RegisterClass.mixed_iff _).mp torn.2.2.2.2
    have one := torn.2.1
    omega
  · refine iff_of_false ?_ fun torn => torn ⟨sound.serves, by omega, small, aligned, ?_⟩
    · rintro (same | all)
      · rw [same, fresh_self] at fresh
        have none := congrArg List.length fresh
        rw [List.length_take, List.length_nil] at none
        omega
      · have most := all.length_le
        rw [fresh, List.length_take] at most
        omega
    · exact (RegisterClass.mixed_iff _).mpr ⟨by omega, by omega⟩

end RegisterFile

/-- An aggregate offered by the System V rule goes to registers whole or not at all, on either
platform's registers, but for one case: both classes want the one slot left of a shared row. There
the first word takes the slot, and the second goes nowhere. -/
theorem sysv_aggregates_whole_unless_torn {platform : Platform} {area : ArgumentArea}
    (reachable : ArgumentArea.Reachable platform area) {layout : Layout} {data : List Byte}
    (exact : data.length = layout.size) :
    (wordsOf data).flatMap Word.bytes =
      data ++ List.replicate (slotBytes * (wordsOf data).length - data.length) 0 ∧
    (area.registers.classify .sysv layout data).result = .ok () ∧
    (area.registers.WholeOrNothing (area.registers.classify .sysv layout data).state
      (wordsOf data) ↔ ¬area.registers.Tears layout) ∧
    (area.registers.Tears layout → area.registers.fresh
      (area.registers.classify .sysv layout data).state = (wordsOf data).take 1) := by
  have sound := reachable.sound
  have accepted := area.registers.classify_granted .sysv layout data (Nat.le_of_eq exact.symm)
  refine ⟨wordsOf_bytes data, accepted.1, ?_, fun torn => ?_⟩
  · cases platform with
    | unix =>
      refine iff_of_true (RegisterFile.sysv_whole_on_unix sound exact) fun torn => ?_
      cases sound.serves.symm.trans torn.1
    | windows => exact RegisterFile.sysv_whole_on_windows_iff sound exact
  · cases sound.serves.symm.trans torn.1
    have whole := torn.granted sound.shared_remaining
    rw [RegisterFile.sysv_fresh_on_windows sound exact whole, torn.2.1]

def doubleAndLong : Layout :=
  ⟨16, 8, [⟨⟨.scalar .double, 1⟩, 0⟩, ⟨⟨.scalar .longLong, 1⟩, 8⟩]⟩

def halves : List Byte := List.replicate 8 0x11 ++ List.replicate 8 0x22

/-- Three of four positions are taken. -/
def lastSlotArea : ArgumentArea :=
  ArgumentArea.after ⟨.empty .windows, ⟨[], 64, false⟩⟩
    [.pushWord .integer 1, .pushWord .integer 2, .pushWord .integer 3]

theorem lastSlotArea_reachable : ArgumentArea.Reachable .windows lastSlotArea := by
  have made : ArgumentArea.empty .windows 64 = .ok ⟨.empty .windows, ⟨[], 64, false⟩⟩ := rfl
  exact .after (.empty made) _

theorem lastSlotArea_tears : lastSlotArea.registers.Tears doubleAndLong :=
  ⟨rfl, rfl, by decide, by decide, .inr (by decide)⟩

/-- The slot goes to the first half of the structure. -/
theorem last_shared_slot_takes_half :
    ArgumentArea.Reachable .windows lastSlotArea ∧ halves.length = doubleAndLong.size ∧
    lastSlotArea.registers.Tears doubleAndLong ∧
    lastSlotArea.registers.fresh
      (lastSlotArea.registers.classify .sysv doubleAndLong halves).state =
        [0x1111111111111111] := by
  have exact : halves.length = doubleAndLong.size := rfl
  have taken := (sysv_aggregates_whole_unless_torn lastSlotArea_reachable exact).2.2.2
  exact ⟨lastSlotArea_reachable, exact, lastSlotArea_tears, taken lastSlotArea_tears⟩

/-- A built layout, all of its data and a reachable area, and yet the aggregate is neither left
alone nor stored whole. -/
theorem sysv_aggregate_torn :
    Layout.ofSteps [.member (.scalar .double) 1, .member (.scalar .longLong) 1] =
      .ok doubleAndLong ∧
    ArgumentArea.Reachable .windows lastSlotArea ∧ halves.length = doubleAndLong.size ∧
    ¬lastSlotArea.registers.WholeOrNothing
      (lastSlotArea.registers.classify .sysv doubleAndLong halves).state (wordsOf halves) := by
  have sound := lastSlotArea_reachable.sound
  refine ⟨rfl, lastSlotArea_reachable, rfl, fun whole => ?_⟩
  exact (RegisterFile.sysv_whole_on_windows_iff sound rfl).mp whole lastSlotArea_tears

end ForeignCall
