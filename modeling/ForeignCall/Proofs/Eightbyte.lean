import ForeignCall.Proofs.Digits
import ForeignCall.Proofs.Growth

/-! Eightbytes of small aggregates. The class of an eightbyte is stated here by the scalars whose
bytes reach into it; for naturally aligned scalars that is the class the classifier computes from
offsets. The registers an aggregate is granted follow from the classes and from what is left, and
`classify_granted` says that a classifier fills exactly those. -/
namespace ForeignCall

/-- Some byte of the scalar lies in the eightbyte at offset `8 * index`. -/
def Piece.overlaps (index : Nat) (piece : Piece) : Bool :=
  piece.offset < slotBytes * (index + 1) && slotBytes * index < piece.stop

/-- Floating-point scalars and nothing else make a float eightbyte. -/
def Layout.eightbyteClass (layout : Layout) (index : Nat) : RegisterClass :=
  let within := layout.pieces.filter (Piece.overlaps index)
  if within ≠ [] ∧ ∀ piece ∈ within, piece.type.registerClass = .float then .float else .integer

/-- The classes of all eightbytes that the layout's size reaches into. -/
def Layout.eightbyteClasses (layout : Layout) : List RegisterClass :=
  (List.range ((layout.size + slotBytes - 1) / slotBytes)).map layout.eightbyteClass

theorem Piece.overlaps_iff {piece : Piece} (aligned : piece.aligned) (index : Nat) :
    piece.overlaps index ↔ piece.offset / slotBytes = index := by
  obtain ⟨offset, type⟩ := piece
  simp only [Piece.aligned, Scalar.alignment, beq_iff_eq] at aligned
  simp only [Piece.overlaps, Bool.and_eq_true, decide_eq_true_eq]
  simp only [Piece.stop, slotBytes]
  cases type <;> simp only [Scalar.size] at aligned ⊢ <;> omega

namespace EightbyteClass

theorem registerClass_eq_float_iff (kind : EightbyteClass) :
    kind.registerClass = .float ↔ kind = .float := by
  cases kind <;> simp [registerClass]

/-- Merging classes ends at float exactly when nothing but float was met. -/
theorem foldl_merge_eq_float_iff (pieces : List Piece) (start : EightbyteClass) :
    pieces.foldl (fun kind piece => kind.merge piece.type.registerClass) start = .float ↔
      (start = .float ∨ start = .padding ∧ pieces ≠ []) ∧
        ∀ piece ∈ pieces, piece.type.registerClass = .float := by
  induction pieces generalizing start with
  | nil => simp
  | cons piece rest ih =>
    rw [List.foldl_cons, ih]
    cases start <;> cases kind : piece.type.registerClass <;> simp [merge, kind]

theorem ofPieces_registerClass (layout : Layout) (aligned : layout.pieces.all Piece.aligned)
    (index : Nat) :
    (ofPieces layout.pieces index).registerClass = layout.eightbyteClass index := by
  have same : layout.pieces.filter (fun piece => piece.offset / slotBytes == index) =
      layout.pieces.filter (Piece.overlaps index) := by
    apply List.filter_congr
    intro piece member
    rw [Bool.eq_iff_iff, beq_iff_eq]
    exact (Piece.overlaps_iff (List.all_eq_true.mp aligned piece member) index).symm
  have decided := foldl_merge_eq_float_iff (layout.pieces.filter (Piece.overlaps index)) .padding
  simp only [ofPieces, same, Layout.eightbyteClass]
  split
  · next floating => exact (registerClass_eq_float_iff _).mpr (decided.mpr (by simpa using floating))
  · next other =>
    have : ¬_ := fun floating => other (by simpa using decided.mp floating)
    rw [← registerClass_eq_float_iff] at this
    cases classOf : registerClass _
    · rfl
    · exact absurd classOf this

end EightbyteClass

theorem Layout.eightbytes_eq (layout : Layout) (aligned : layout.pieces.all Piece.aligned) :
    layout.eightbytes = layout.eightbyteClasses := by
  simp only [eightbytes, eightbyteClasses, EightbyteClass.ofPieces_registerClass layout aligned]

/-! The words of some data hold the data, with zeros after it. -/

@[simp] theorem wordsOf_length (data : List Byte) :
    (wordsOf data).length = (data.length + slotBytes - 1) / slotBytes := by
  simp [wordsOf]

@[simp] theorem wordsOf_nil : wordsOf [] = [] := rfl

theorem wordsOf_of_ne_nil {data : List Byte} (filled : data ≠ []) :
    wordsOf data = Word.ofBytes (data.take slotBytes) :: wordsOf (data.drop slotBytes) := by
  have positive := List.length_pos_iff.mpr filled
  have count : (data.length + slotBytes - 1) / slotBytes =
      ((data.drop slotBytes).length + slotBytes - 1) / slotBytes + 1 := by
    rw [List.length_drop]
    simp only [slotBytes]
    omega
  rw [wordsOf, count, List.range_succ_eq_map]
  simp [wordsOf, Nat.mul_add, Nat.add_comm slotBytes]

theorem wordsOf_of_short {data : List Byte} (filled : 0 < data.length)
    (short : data.length ≤ slotBytes) : wordsOf data = [Word.ofBytes data] := by
  rw [wordsOf_of_ne_nil (List.length_pos_iff.mp filled), List.take_of_length_le short,
    List.drop_of_length_le short, wordsOf_nil]

/-- Nothing is lost in words: their bytes are the data and a filling of zeros. -/
theorem wordsOf_bytes (data : List Byte) :
    (wordsOf data).flatMap Word.bytes =
      data ++ List.replicate (slotBytes * (wordsOf data).length - data.length) 0 := by
  induction measured : data.length using Nat.strongRecOn generalizing data with
  | ind length ih =>
    by_cases filled : data = []
    · simp [filled]
    have positive := List.length_pos_iff.mpr filled
    have shorter : (data.drop slotBytes).length < length := by
      rw [List.length_drop, measured]
      simp only [slotBytes]
      omega
    rw [wordsOf_of_ne_nil filled, List.flatMap_cons, ih _ shorter _ rfl,
      Word.bytes_ofBytes _ (List.length_take_le _ _), List.length_cons]
    generalize (wordsOf (data.drop slotBytes)).length = rest
    by_cases long : slotBytes ≤ data.length
    · have zeros : slotBytes * rest - (data.drop slotBytes).length =
          slotBytes * (rest + 1) - data.length := by
        rw [List.length_drop, Nat.mul_succ]
        omega
      rw [List.length_take, Nat.min_eq_left long, Nat.sub_self, zeros, ← measured]
      simp [← List.append_assoc]
    · have short : data.length ≤ slotBytes := by omega
      have zeros : slotBytes * (rest + 1) - data.length =
          slotBytes - data.length + slotBytes * rest := by
        rw [Nat.mul_succ]
        omega
      simp only [List.take_of_length_le short, List.drop_of_length_le short, ← measured, zeros]
      simp

/-! Registers for aggregates. -/

/-- The classes of the registers that an aggregate gets while `remaining` registers of each class
are left: one for each of its words, or none at all. -/
def Classifier.granted (classifier : Classifier) (remaining : RegisterClass → Nat)
    (layout : Layout) : List RegisterClass :=
  match classifier with
  | .sysv =>
    let kinds := layout.eightbyteClasses
    if 0 < layout.size ∧ layout.size ≤ 16 ∧ (∀ piece ∈ layout.pieces, piece.aligned) ∧
        kinds.count .integer ≤ remaining .integer ∧ kinds.count .float ≤ remaining .float then kinds
    else []
  | .win64 =>
    if (layout.size = 1 ∨ layout.size = 2 ∨ layout.size = 4 ∨ layout.size = 8) ∧
        0 < remaining .integer then [.integer]
    else []

theorem RegisterClass.count_add_count (kinds : List RegisterClass) :
    kinds.count .integer + kinds.count .float = kinds.length := by
  induction kinds with
  | nil => rfl
  | cons kind rest ih => cases kind <;> simp <;> omega

namespace Classifier

theorem granted_length (classifier : Classifier) (remaining : RegisterClass → Nat)
    (layout : Layout) (some : classifier.granted remaining layout ≠ []) :
    layout.size ≤ offerLimit ∧ (classifier.granted remaining layout).length =
      (layout.size + slotBytes - 1) / slotBytes := by
  cases classifier with
  | sysv =>
    simp only [granted] at some ⊢
    split at some
    · next fits =>
      rw [if_pos fits]
      exact ⟨Nat.le_trans fits.2.1 (by decide), by simp [Layout.eightbyteClasses]⟩
    · contradiction
  | win64 =>
    simp only [granted] at some ⊢
    split at some
    · next fits =>
      rw [if_pos fits]
      rcases fits.1 with size | size | size | size <;> simp [size, offerLimit, slotBytes]
    · contradiction

theorem granted_of_large (classifier : Classifier) (remaining : RegisterClass → Nat)
    {layout : Layout} (large : offerLimit < layout.size) :
    classifier.granted remaining layout = [] := by
  apply Decidable.byContradiction
  intro some
  have := (classifier.granted_length remaining layout some).1
  omega

/-- Where no register is left, none is granted. -/
theorem granted_of_full (classifier : Classifier) {remaining : RegisterClass → Nat}
    (full : ∀ kind, remaining kind = 0) (layout : Layout) :
    classifier.granted remaining layout = [] := by
  cases classifier with
  | sysv =>
    have demand := RegisterClass.count_add_count layout.eightbyteClasses
    simp only [Layout.eightbyteClasses, List.length_map, List.length_range, slotBytes] at demand
    simp only [granted, full]
    exact if_neg fun fits => by
      simp only [Layout.eightbyteClasses, slotBytes] at fits
      omega
  | win64 =>
    simp only [granted, full]
    exact if_neg fun fits => Nat.lt_irrefl 0 fits.2

theorem fitsRegister_iff (size : Nat) :
    fitsRegister size ↔ size = 1 ∨ size = 2 ∨ size = 4 ∨ size = 8 := by
  simp [fitsRegister]

end Classifier

namespace RegisterFile

theorem aggregateBytes_of_le {data : List Byte} {size : Nat} (enough : size ≤ data.length) :
    aggregateBytes data size = .ok (data.take size) := if_pos enough

theorem classifySysV_eq (file : RegisterFile) {layout : Layout} {data : List Byte}
    (enough : layout.size ≤ data.length) : file.classifySysV layout data =
      let kinds := layout.eightbyteClasses
      let integers := kinds.count .integer
      let floats := kinds.count .float
      if layout.size = 0 ∨ 16 < layout.size then ⟨.ok (), [.memoryClass layout.size], file⟩
      else if ∀ piece ∈ layout.pieces, piece.aligned then
        if file.remaining .integer < integers ∨ file.remaining .float < floats then
          ⟨.ok (), [.registersShort integers floats], file⟩
        else ⟨.ok (), [.unrolled integers floats],
          file.pushAll (kinds.zip (wordsOf (data.take layout.size)))⟩
      else ⟨.ok (), [.unaligned], file⟩ := by
  unfold classifySysV
  refine ite_congr rfl (fun _ => rfl) fun _ => ?_
  by_cases aligned : layout.pieces.all Piece.aligned
  · have demand := RegisterClass.count_add_count layout.eightbyteClasses
    have integers : layout.eightbyteClasses.length - layout.eightbyteClasses.count .float =
        layout.eightbyteClasses.count .integer := by
      omega
    rw [if_pos aligned, if_pos (List.all_eq_true.mp aligned)]
    simp only [layout.eightbytes_eq aligned, aggregateBytes_of_le enough, integers]
  · rw [if_neg aligned, if_neg fun all => aligned (List.all_eq_true.mpr all)]

theorem classifySysV_granted (file : RegisterFile) (layout : Layout) (data : List Byte)
    (enough : layout.size ≤ data.length) :
    (file.classifySysV layout data).result = .ok () ∧
    (file.classifySysV layout data).state = file.pushAll
      ((Classifier.sysv.granted file.remaining layout).zip (wordsOf (data.take layout.size))) := by
  rw [file.classifySysV_eq enough]
  simp only [Classifier.granted]
  split
  · next size =>
    rw [if_neg fun fits => by omega]
    exact ⟨rfl, rfl⟩
  split
  · next aligned =>
    split
    · next short =>
      rw [if_neg fun fits => by omega]
      exact ⟨rfl, rfl⟩
    · next room =>
      rw [if_pos ⟨by omega, by omega, aligned, by omega, by omega⟩]
      exact ⟨rfl, rfl⟩
  · next unaligned =>
    rw [if_neg fun fits => unaligned fits.2.2.1]
    exact ⟨rfl, rfl⟩

theorem classifyWin64_granted (file : RegisterFile) (layout : Layout) (data : List Byte)
    (enough : layout.size ≤ data.length) :
    (file.classifyWin64 layout data).result = .ok () ∧
    (file.classifyWin64 layout data).state = file.pushAll
      ((Classifier.win64.granted file.remaining layout).zip (wordsOf (data.take layout.size))) := by
  unfold classifyWin64
  by_cases fits : Classifier.fitsRegister layout.size
  · rw [if_pos fits, aggregateBytes_of_le enough]
    have sizes := (Classifier.fitsRegister_iff _).mp fits
    have taken : (data.take layout.size).length = layout.size := List.length_take_of_le enough
    have words : wordsOf (data.take layout.size) = [Word.ofBytes (data.take layout.size)] :=
      wordsOf_of_short (by omega) (by simp only [slotBytes]; omega)
    simp only [words, Classifier.granted, sizes, true_and]
    by_cases free : 0 < file.remaining .integer
    · rw [if_pos free]
      rfl
    · have full : file.remaining .integer = 0 := by omega
      rw [if_neg free, file.push_of_full .integer _ (Nat.sub_eq_zero_iff_le.mp full)]
      rfl
  · rw [if_neg fits, Classifier.granted,
      if_neg fun both => fits ((Classifier.fitsRegister_iff _).mpr both.1)]
    exact ⟨rfl, rfl⟩

/-- Given all of its bytes, an aggregate is always classified, and its words go in order to
registers of the granted classes. -/
theorem classify_granted (file : RegisterFile) (classifier : Classifier) (layout : Layout)
    (data : List Byte) (enough : layout.size ≤ data.length) :
    (file.classify classifier layout data).result = .ok () ∧
    (file.classify classifier layout data).state = file.pushAll
      ((classifier.granted file.remaining layout).zip (wordsOf (data.take layout.size))) := by
  cases classifier with
  | sysv => exact file.classifySysV_granted layout data enough
  | win64 => exact file.classifyWin64_granted layout data enough

end RegisterFile

/-- A structure with all of its bytes is always accepted. Its bytes go to the stack, and words of
them to the registers that the classifier grants. -/
theorem ArgumentArea.pushAggregate_granted (area : ArgumentArea) (classifier : Classifier)
    (layout : Layout) (data : List Byte) (exact : data.length = layout.size) :
    (area.pushAggregate classifier layout data).result = .ok () ∧
    (area.pushAggregate classifier layout data).state =
      ⟨area.registers.pushAll
        ((classifier.granted area.registers.remaining layout).zip (wordsOf data)),
        area.stack.append data⟩ := by
  unfold pushAggregate
  rw [if_pos exact]
  dsimp only
  split
  · have placed := area.registers.classify_granted classifier layout data (by omega)
    rw [← exact, List.take_length] at placed
    obtain ⟨accepted, registers⟩ := placed
    constructor
    · simp only [Outcome.within, Outcome.mapResult, accepted]
      rfl
    · simp only [Outcome.within, Outcome.mapResult, registers]
  · next large =>
    rw [classifier.granted_of_large _ (Nat.not_le.mp large)]
    exact ⟨rfl, rfl⟩

end ForeignCall
