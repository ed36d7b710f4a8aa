import ForeignCall.Proofs.Eightbyte

/-! Reading an argument area back. A callee knows the types of its parameters and nothing of the
values; it counts the slots it has taken and the stack bytes it has passed, and so finds each
argument. `SlotRule` is what a convention says about counting, and `SlotRule.read` is the reader. -/
namespace ForeignCall

namespace Argument

/-- The value of a type that a full word stands for. The word of an integer has the same sign and
size as the value; a word with anything else in its high bits stands for none. -/
def ofWord? (type : Scalar) (word : Word) : Option Argument :=
  match type with
  | .bool => if word = 0 then some (.bool false) else if word = 1 then some (.bool true) else none
  | .char => if (word.setWidth 8).toInt = word.toInt then some (.char (word.setWidth 8)) else none
  | .short =>
    if (word.setWidth 16).toInt = word.toInt then some (.short (word.setWidth 16)) else none
  | .int => if (word.setWidth 32).toInt = word.toInt then some (.int (word.setWidth 32)) else none
  | .long => some (.long word)
  | .longLong => some (.longLong word)
  | .float =>
    if (word.setWidth 32).toNat = word.toNat then some (.float (word.setWidth 32)) else none
  | .double => some (.double word)
  | .pointer => some (.pointer word)

theorem setWidth_signExtend {narrow : Nat} (value : BitVec narrow) (small : narrow ≤ 64) :
    (value.signExtend 64).setWidth narrow = value := by
  ext i inside
  simp only [BitVec.getElem_setWidth, BitVec.getLsbD_signExtend]
  simp [inside, show i < 64 by omega]

theorem signExtend_setWidth_iff {narrow : Nat} (word : Word) (small : narrow ≤ 64) :
    (word.setWidth narrow).signExtend 64 = word ↔ (word.setWidth narrow).toInt = word.toInt := by
  rw [← BitVec.toInt_inj, BitVec.toInt_signExtend_of_le small]

theorem setWidth_setWidth_iff (word : Word) :
    (word.setWidth 32).setWidth 64 = word ↔ (word.setWidth 32).toNat = word.toNat := by
  rw [← BitVec.toNat_inj, BitVec.toNat_setWidth_of_le (by decide)]

/-- A word is read as a value exactly when it is the word that the value is passed as. -/
theorem ofWord?_eq_some_iff {type : Scalar} {word : Word} {argument : Argument} :
    ofWord? type word = some argument ↔ argument.type = type ∧ argument.word = word := by
  constructor
  · intro read
    cases type with
    | bool =>
      simp only [ofWord?] at read
      split at read
      · next zero =>
        cases read
        exact ⟨rfl, zero.symm⟩
      · simp only [Option.ite_none_right_eq_some] at read
        obtain ⟨one, ⟨⟩⟩ := read
        exact ⟨rfl, one.symm⟩
    | char | short | int =>
      simp only [ofWord?, Option.ite_none_right_eq_some] at read
      obtain ⟨same, ⟨⟩⟩ := read
      exact ⟨rfl, (signExtend_setWidth_iff word (by decide)).mpr same⟩
    | float =>
      simp only [ofWord?, Option.ite_none_right_eq_some] at read
      obtain ⟨same, ⟨⟩⟩ := read
      exact ⟨rfl, (setWidth_setWidth_iff word).mpr same⟩
    | long | longLong | double | pointer =>
      cases read
      exact ⟨rfl, rfl⟩
  · rintro ⟨rfl, rfl⟩
    cases argument with
    | bool value => cases value <;> rfl
    | char value | short value | int value =>
      have low := setWidth_signExtend value (by decide)
      have same := (signExtend_setWidth_iff _ (by decide)).mp (congrArg (BitVec.signExtend 64) low)
      rw [low] at same
      simp only [Argument.type, Argument.word, ofWord?, low, if_pos same]
    | float bits =>
      have low : (bits.setWidth 64).setWidth 32 = bits := by simp
      have same := (setWidth_setWidth_iff _).mp (congrArg (BitVec.setWidth 64) low)
      rw [low] at same
      simp only [Argument.type, Argument.word, ofWord?, low, if_pos same]
    | long | longLong | double | pointer => rfl

end Argument

inductive CallArgument where
  | scalar (value : Argument)
  | struct (layout : Layout) (data : List Byte)
  deriving DecidableEq

/-- What a callee knows of an argument beforehand. -/
inductive Parameter where
  | scalar (type : Scalar)
  | struct (layout : Layout)

namespace CallArgument

def parameter : CallArgument → Parameter
  | scalar value => .scalar value.type
  | struct layout _ => .struct layout

/-- A structure comes with as many bytes as its layout has. -/
def Exact : CallArgument → Prop
  | scalar _ => True
  | struct layout data => data.length = layout.size

instance : (argument : CallArgument) → Decidable argument.Exact
  | scalar _ => inferInstanceAs (Decidable True)
  | struct layout data => inferInstanceAs (Decidable (data.length = layout.size))

def stackBytes : CallArgument → List Byte
  | scalar value => value.word.bytes
  | struct _ data => data

end CallArgument

namespace ArgumentArea

def pushArgument (area : ArgumentArea) (scheme : Scheme) :
    CallArgument → Outcome ArgumentArea (Except Failure Unit)
  | .scalar value => area.push scheme value
  | .struct layout data => area.pushStruct scheme layout data

/-- Pushes in order, up to the first push that fails. -/
def pushArguments (area : ArgumentArea) (scheme : Scheme) :
    List CallArgument → Except Failure ArgumentArea
  | [] => .ok area
  | argument :: rest =>
    let pushed := area.pushArgument scheme argument
    match pushed.result with
    | .ok () => pushed.state.pushArguments scheme rest
    | .error cause => .error cause

end ArgumentArea

/-- What a convention says about slots: how its counters start, how many slots of a class they say
are taken, what taking another does to them, and how many slots there are. Which registers an
aggregate gets is up to the classifier. -/
structure SlotRule (κ : Type) where
  start : κ
  taken : κ → RegisterClass → Nat
  take : κ → RegisterClass → κ
  budget : RegisterClass → Nat
  classifier : Classifier

structure Cursor (κ : Type) where
  counters : κ
  offset : Nat

/-- The next bytes of the stack, if there are so many. -/
def stackBlock (stack : List Byte) (offset count : Nat) : Option (List Byte) :=
  if offset + count ≤ stack.length then some ((stack.drop offset).take count) else none

namespace SlotRule

variable (rule : SlotRule κ)

def left (counters : κ) (kind : RegisterClass) : Nat :=
  rule.budget kind - rule.taken counters kind

def readSlot (slots : RegisterClass → List Word) (kind : RegisterClass) (counters : κ) :
    Option (Word × κ) :=
  if rule.taken counters kind < rule.budget kind then
    ((slots kind)[rule.taken counters kind]?).map fun word => (word, rule.take counters kind)
  else none

def readSlots (slots : RegisterClass → List Word) :
    List RegisterClass → κ → Option (List Word × κ)
  | [], counters => some ([], counters)
  | kind :: rest, counters => do
    let (word, counters) ← rule.readSlot slots kind counters
    let (words, counters) ← readSlots slots rest counters
    return (word :: words, counters)

/-- A scalar is in the next slot of its class, or in the next eight stack bytes once the slots are
used up. -/
def readScalar (slots : RegisterClass → List Word) (stack : List Byte) (type : Scalar)
    (cursor : Cursor κ) : Option (CallArgument × Cursor κ) :=
  if rule.taken cursor.counters type.registerClass < rule.budget type.registerClass then do
    let (word, counters) ← rule.readSlot slots type.registerClass cursor.counters
    let value ← Argument.ofWord? type word
    return (.scalar value, { cursor with counters })
  else do
    let bytes ← stackBlock stack cursor.offset slotBytes
    let value ← Argument.ofWord? type (Word.ofBytes bytes)
    return (.scalar value, { cursor with offset := cursor.offset + slotBytes })

/-- A structure is in the next stack bytes as it is. If registers were granted to it as well, they
hold the same bytes, filled up with zeros. -/
def readStruct (slots : RegisterClass → List Word) (stack : List Byte) (layout : Layout)
    (cursor : Cursor κ) : Option (CallArgument × Cursor κ) := do
  let data ← stackBlock stack cursor.offset layout.size
  let kinds := rule.classifier.granted (rule.left cursor.counters) layout
  let (words, counters) ← rule.readSlots slots kinds cursor.counters
  if kinds = [] ∨ words.flatMap Word.bytes =
      data ++ List.replicate (slotBytes * words.length - data.length) 0 then
    return (.struct layout data, ⟨counters, cursor.offset + layout.size⟩)
  else none

def readParameter (slots : RegisterClass → List Word) (stack : List Byte) :
    Parameter → Cursor κ → Option (CallArgument × Cursor κ)
  | .scalar type => rule.readScalar slots stack type
  | .struct layout => rule.readStruct slots stack layout

def read (slots : RegisterClass → List Word) (stack : List Byte) :
    List Parameter → Cursor κ → Option (List CallArgument × Cursor κ)
  | [], cursor => some ([], cursor)
  | parameter :: rest, cursor => do
    let (argument, cursor) ← rule.readParameter slots stack parameter cursor
    let (arguments, cursor) ← read slots stack rest cursor
    return (argument :: arguments, cursor)

end SlotRule
end ForeignCall
