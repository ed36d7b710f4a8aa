import ForeignCall.Proofs.AllOrNothing
import ForeignCall.Proofs.Flattening

/-! Unrolling of aggregates into System V registers. The classifier looks at where a scalar starts,
once all of them are naturally aligned; the rule is about the bytes that a scalar covers. For a built
layout the two agree, and so the rule tells what becomes of the registers: nothing, or each eightbyte
in the next slot of its class. -/
namespace ForeignCall

namespace Piece

theorem overlaps_iff_byte (piece : Piece) (index : Nat) : piece.overlaps index ↔
    ∃ byte, piece.offset ≤ byte ∧ byte < piece.stop ∧ byte / slotBytes = index := by
  have positive := piece.type.size_pos
  simp only [overlaps, Bool.and_eq_true, decide_eq_true_eq]
  simp only [stop, slotBytes]
  constructor
  · rintro ⟨before, behind⟩
    -- The first byte of the scalar, or of the eightbyte, whichever comes later.
    exact ⟨max piece.offset (8 * index), by omega, by omega, by omega⟩
  · rintro ⟨byte, first, last, rfl⟩
    omega

theorem aligned_iff (piece : Piece) : piece.aligned ↔ piece.type.alignment ∣ piece.offset := by
  rw [aligned, beq_iff_eq, Nat.dvd_iff_mod_eq_zero]

end Piece

theorem Layout.Built.one_eightbyte {layout : Layout} (built : layout.Built) {piece : Piece}
    (within : piece ∈ layout.pieces) (aligned : piece.aligned) :
    ∃ index < layout.eightbyteClasses.length,
      ∀ byte, piece.offset ≤ byte → byte < piece.stop → byte / slotBytes = index := by
  refine ⟨piece.offset / slotBytes, ?_, fun byte first last => ?_⟩
  · have inside := built.orderly.inside piece within
    have positive := piece.type.size_pos
    rw [Piece.stop] at inside
    rw [Layout.eightbyteClasses, List.length_map, List.length_range]
    simp only [slotBytes]
    omega
  · have overlaps := (piece.overlaps_iff_byte (byte / slotBytes)).mpr ⟨byte, first, last, rfl⟩
    exact ((Piece.overlaps_iff aligned _).mp overlaps).symm

namespace SlotRow

variable {row : SlotRow n}

theorem pushAll_slots {words : List Word} (room : row.used + words.length ≤ n) :
    (row.pushAll words).slots.toList = row.slots.toList.take row.used ++ words ++
      row.slots.toList.drop (row.used + words.length) := by
  induction words generalizing row with
  | nil => simp [pushAll]
  | cons word rest ih =>
    rw [List.length_cons] at room
    have free : row.used < n := by omega
    have used : (row.push word).2.used = row.used + 1 := by rw [push_of_free free]
    have front : (row.push word).2.slots.toList.take (row.used + 1) =
        row.slots.toList.take row.used ++ [word] := used ▸ push_filled free word
    have behind : (row.push word).2.slots.toList.drop (row.used + 1 + rest.length) =
        row.slots.toList.drop (row.used + 1 + rest.length) := by
      rw [push_of_free free, Vector.toList_set, List.drop_set_of_lt (by omega)]
    have placed := @ih (row.push word).2 (by omega)
    rw [used, front, behind] at placed
    have order : row.used + 1 + rest.length = row.used + (word :: rest).length := by
      rw [List.length_cons]
      omega
    rw [pushAll, List.foldl_cons, ← order]
    simpa [pushAll] using placed

/-- Where there is room for all words, all of them are put into the row, and nothing else. -/
theorem pushAll_of_room (inside : row.used ≤ n) {words : List Word}
    (room : words.length ≤ n - row.used) :
    (row.pushAll words).used = row.used + words.length ∧
    (row.pushAll words).slots.toList = row.slots.toList.take row.used ++ words ++
      row.slots.toList.drop (row.used + words.length) ∧
    (row.pushAll words).filled.drop row.used = words := by
  refine ⟨?_, pushAll_slots (by omega), ?_⟩
  · rw [pushAll_used, Nat.min_eq_right room]
  · rw [pushAll_filled, List.drop_left' (filled_length inside), List.take_of_length_le room]

end SlotRow

/-- Takes words from two rows, each from the row of its class. -/
def interleave : List RegisterClass → List Word → List Word → List Word
  | .integer :: kinds, word :: integers, floats => word :: interleave kinds integers floats
  | .float :: kinds, integers, word :: floats => word :: interleave kinds integers floats
  | _, _, _ => []

theorem interleave_wordsOfClass {kinds : List RegisterClass} {words : List Word}
    (lengths : words.length = kinds.length) :
    interleave kinds (wordsOfClass .integer (kinds.zip words))
      (wordsOfClass .float (kinds.zip words)) = words := by
  induction kinds generalizing words with
  | nil => rw [List.length_eq_zero_iff.mp lengths, interleave.eq_def]
  | cons kind rest ih =>
    obtain ⟨word, words, rfl⟩ := List.exists_cons_of_length_eq_add_one lengths
    rw [List.zip_cons_cons, wordsOfClass_cons, wordsOfClass_cons]
    cases kind <;> simp [interleave, ih (Nat.succ.inj lengths)]

namespace RegisterFile

/-- The words of an aggregate are in registers: those of each class in the slots from the first free
one on, with all other slots as before. In the order of the classes, the slots that were filled hold
the bytes of the aggregate, with zeros after them. -/
structure Unrolled (earlier : RegisterFile) (kinds : List RegisterClass) (data : List Byte)
    (later : RegisterFile) : Prop where
  used : ∀ kind, later.used kind = earlier.used kind + kinds.count kind
  slots : ∀ kind, later.slots kind = (earlier.slots kind).take (earlier.used kind) ++
    wordsOfClass kind (kinds.zip (wordsOf data)) ++ (earlier.slots kind).drop (later.used kind)
  bytes : (interleave kinds ((later.filled .integer).drop (earlier.used .integer))
      ((later.filled .float).drop (earlier.used .float))).flatMap Word.bytes =
    data ++ List.replicate (slotBytes * kinds.length - data.length) 0

variable {file : RegisterFile}

theorem pushAll_row (sound : Sound .unix file) {words : List (RegisterClass × Word)}
    {kind : RegisterClass} (room : (wordsOfClass kind words).length ≤ file.remaining kind) :
    (file.pushAll words).used kind = file.used kind + (wordsOfClass kind words).length ∧
    (file.pushAll words).slots kind = (file.slots kind).take (file.used kind) ++
      wordsOfClass kind words ++
      (file.slots kind).drop (file.used kind + (wordsOfClass kind words).length) ∧
    ((file.pushAll words).filled kind).drop (file.used kind) = wordsOfClass kind words := by
  have inside := sound.used kind
  rw [slots_length] at inside
  rw [remaining, slots_length] at room
  cases file with
  | shared row => cases sound.serves
  | separate integers floats =>
    rw [pushAll_separate]
    cases kind with
    | integer => exact integers.pushAll_of_room inside room
    | float => exact floats.pushAll_of_room inside room

theorem pushAll_unrolled (sound : Sound .unix file) {kinds : List RegisterClass}
    {data : List Byte} (lengths : (wordsOf data).length = kinds.length)
    (room : ∀ kind, kinds.count kind ≤ file.remaining kind) :
    file.Unrolled kinds data (file.pushAll (kinds.zip (wordsOf data))) := by
  have count (kind : RegisterClass) := wordsOfClass_length kind lengths
  have row (kind : RegisterClass) := pushAll_row sound ((count kind).trans_le (room kind))
  simp only [count] at row
  refine ⟨fun kind => (row kind).1, fun kind => ?_, ?_⟩
  · rw [(row kind).1]
    exact (row kind).2.1
  · rw [(row .integer).2.2, (row .float).2.2, interleave_wordsOfClass lengths,
      wordsOf_bytes, lengths]

end RegisterFile

/-- The System V classifier follows the bytes of a built layout. An aggregate goes to memory for its
size or for a scalar that is not naturally aligned. Otherwise every scalar is within one eightbyte;
an eightbyte asks for a float register if float scalars and no others reach into it, and else for an
integer register. Too few left in either row leave all registers alone; with enough, the aggregate is
unrolled. -/
theorem sysv_classification_follows_bytes {file : RegisterFile}
    (sound : RegisterFile.Sound .unix file) {layout : Layout} (built : layout.Built)
    {data : List Byte} (enough : layout.size ≤ data.length) :
    let kinds := layout.eightbyteClasses
    let integers := kinds.count .integer
    let floats := kinds.count .float
    let outcome := file.classify .sysv layout data
    (layout.size = 0 ∨ 16 < layout.size →
      outcome = ⟨.ok (), [.memoryClass layout.size], file⟩) ∧
    (0 < layout.size ∧ layout.size ≤ 16 →
      ((∃ piece ∈ layout.pieces, ¬piece.type.alignment ∣ piece.offset) →
        outcome = ⟨.ok (), [.unaligned], file⟩) ∧
      ((∀ piece ∈ layout.pieces, piece.type.alignment ∣ piece.offset) →
        (∀ piece ∈ layout.pieces, ∃ index < kinds.length,
          ∀ byte, piece.offset ≤ byte → byte < piece.stop → byte / slotBytes = index) ∧
        (6 - file.used .integer < integers ∨ 8 - file.used .float < floats →
          outcome = ⟨.ok (), [.registersShort integers floats], file⟩) ∧
        (integers ≤ 6 - file.used .integer ∧ floats ≤ 8 - file.used .float →
          ∃ after, outcome = ⟨.ok (), [.unrolled integers floats], after⟩ ∧
            file.Unrolled kinds (data.take layout.size) after))) := by
  intro kinds integers floats outcome
  have decided : outcome = _ := file.classifySysV_eq enough
  refine ⟨fun size => decided.trans (if_pos size), fun size => ?_⟩
  rw [if_neg (by omega)] at decided
  refine ⟨?_, fun multiples => ?_⟩
  · rintro ⟨piece, within, unaligned⟩
    refine decided.trans (if_neg fun aligned => unaligned ?_)
    exact piece.aligned_iff.mp (aligned piece within)
  have aligned : ∀ piece ∈ layout.pieces, piece.aligned := fun piece within =>
    piece.aligned_iff.mpr (multiples piece within)
  have left (kind : RegisterClass) :
      file.remaining kind = Platform.slotCount .unix kind - file.used kind := by
    rw [RegisterFile.remaining, RegisterFile.slots_length, sound.serves]
  rw [if_pos aligned, left .integer, left .float] at decided
  refine ⟨fun piece within => built.one_eightbyte within (aligned piece within), ?_, ?_⟩
  · exact fun short => decided.trans (if_pos short)
  · rintro ⟨enoughIntegers, enoughFloats⟩
    refine ⟨_, decided.trans (if_neg ?_), RegisterFile.pushAll_unrolled sound ?_ ?_⟩
    · rintro (short | short)
      · exact Nat.not_lt.mpr enoughIntegers short
      · exact Nat.not_lt.mpr enoughFloats short
    · exact wordsOf_length_eq (List.length_take_of_le enough)
    · intro kind
      rw [left]
      cases kind with
      | integer => exact enoughIntegers
      | float => exact enoughFloats

def vectorAndTag : Layout :=
  ⟨12, 4, [⟨⟨.scalar .float, 2⟩, 0⟩, ⟨⟨.scalar .char, 3⟩, 8⟩]⟩

theorem vectorAndTag_built : vectorAndTag.Built := by
  have scalars : ∀ member ∈ Step.members [.member (.scalar .float) 2, .member (.scalar .char) 3],
      member.element.Built := by
    simp [Step.members]
  exact .ofSteps scalars rfl

def lastRegisters : RegisterFile :=
  (RegisterFile.empty .unix).pushAll
    (List.replicate 5 (.integer, 9) ++ List.replicate 7 (.float, 9))

theorem lastRegisters_sound : RegisterFile.Sound .unix lastRegisters :=
  RegisterFile.pushAll_sound (RegisterFile.empty_sound .unix) _

def vectorBytes : List Byte := List.replicate 8 0x11 ++ List.replicate 6 0x22

theorem last_registers_take_vector_and_tag :
    RegisterFile.Sound .unix lastRegisters ∧ vectorAndTag.Built ∧
    vectorAndTag.size ≤ vectorBytes.length ∧
    ∃ after,
      lastRegisters.classify .sysv vectorAndTag vectorBytes = ⟨.ok (), [.unrolled 1 1], after⟩ ∧
      after.slots .integer = List.replicate 5 9 ++ [0x22222222] ∧
      after.slots .float = List.replicate 7 9 ++ [0x1111111111111111] := by
  have enough : vectorAndTag.size ≤ vectorBytes.length := by decide
  have aligned : ∀ piece ∈ vectorAndTag.pieces, piece.type.alignment ∣ piece.offset := by decide
  have small := (sysv_classification_follows_bytes lastRegisters_sound vectorAndTag_built enough).2
  obtain ⟨after, outcome, unrolled⟩ := ((small (by decide)).2 aligned).2.2 (by decide)
  refine ⟨lastRegisters_sound, vectorAndTag_built, enough, after, outcome, ?_, ?_⟩
  · rw [unrolled.slots, unrolled.used]
    decide
  · rw [unrolled.slots, unrolled.used]
    decide

end ForeignCall
