import ForeignCall.Journal
import ForeignCall.Layout.Piece
import ForeignCall.RegisterFile

/-! Small aggregates in registers. System V divides an aggregate of at most sixteen bytes into
eightbytes and passes all of them in registers of their classes, or none; Microsoft x64 passes an
aggregate of one, two, four or eight bytes as if it were an integer. Neither touches the stack. -/
namespace ForeignCall

/-- What an eightbyte holds; a single integer decides against the float registers. -/
inductive EightbyteClass where
  | padding
  | float
  | integer
  deriving DecidableEq

namespace EightbyteClass

def merge : EightbyteClass → RegisterClass → EightbyteClass
  | integer, _ | _, .integer => integer
  | _, .float => float

/-- Padding travels with the integers. -/
def registerClass : EightbyteClass → RegisterClass
  | float => .float
  | padding | integer => .integer

/-- The class of the eightbyte at offset `8 * index`. -/
def ofPieces (pieces : List Piece) (index : Nat) : EightbyteClass :=
  (pieces.filter fun piece => piece.offset / slotBytes == index).foldl
    (fun kind piece => kind.merge piece.type.registerClass) padding

end EightbyteClass

/-- The register classes of a layout's eightbytes, in order. -/
def Layout.eightbytes (layout : Layout) : List RegisterClass :=
  (List.range ((layout.size + slotBytes - 1) / slotBytes)).map fun index =>
    (EightbyteClass.ofPieces layout.pieces index).registerClass

/-- The words of `data` in steps of eight bytes; the last one is filled up with zeros. -/
def wordsOf (data : List Byte) : List Word :=
  (List.range ((data.length + slotBytes - 1) / slotBytes)).map fun index =>
    Word.ofBytes ((data.drop (slotBytes * index)).take slotBytes)

inductive Classifier where
  | sysv
  | win64
  deriving DecidableEq

namespace Classifier

/-- The largest aggregate that is offered to a classifier at all. -/
def offerLimit : Nat := 64

def sysvLimit : Nat := 16

def fitsRegister (size : Nat) : Bool := size ∈ [1, 2, 4, 8]

end Classifier

namespace RegisterFile

def pushAll (file : RegisterFile) : List (RegisterClass × Word) → RegisterFile
  | [] => file
  | (kind, word) :: rest => (file.push kind word).2.pushAll rest

def aggregateBytes (data : List Byte) (size : Nat) : Except Fault (List Byte) :=
  if size ≤ data.length then .ok (data.take size) else .error (.dataShort data.length size)

def classifySysV (file : RegisterFile) (layout : Layout) (data : List Byte) :
    Outcome RegisterFile (Except Fault Unit) :=
  if layout.size = 0 ∨ Classifier.sysvLimit < layout.size then
    ⟨.ok (), [.memoryClass layout.size], file⟩
  else if layout.pieces.all Piece.aligned then
    let classes := layout.eightbytes
    let floats := classes.count .float
    let integers := classes.length - floats
    if file.remaining .integer < integers ∨ file.remaining .float < floats then
      ⟨.ok (), [.registersShort integers floats], file⟩
    else match aggregateBytes data layout.size with
      | .error fault => .quiet file (.error fault)
      | .ok bytes =>
        ⟨.ok (), [.unrolled integers floats], file.pushAll (classes.zip (wordsOf bytes))⟩
  else ⟨.ok (), [.unaligned], file⟩

def classifyWin64 (file : RegisterFile) (layout : Layout) (data : List Byte) :
    Outcome RegisterFile (Except Fault Unit) :=
  if Classifier.fitsRegister layout.size then
    match aggregateBytes data layout.size with
    | .error fault => .quiet file (.error fault)
    | .ok bytes =>
      let (placed, file) := file.push .integer (Word.ofBytes bytes)
      ⟨.ok (), if placed then [.inRegister layout.size] else [], file⟩
  else ⟨.ok (), [.byMemory layout.size], file⟩

def classify (file : RegisterFile) : Classifier → Layout → List Byte →
    Outcome RegisterFile (Except Fault Unit)
  | .sysv => file.classifySysV
  | .win64 => file.classifyWin64

end RegisterFile
end ForeignCall
