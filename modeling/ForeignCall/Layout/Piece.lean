import ForeignCall.Layout.Basic

/-! Flattening. The pieces of a layout are its scalars at their absolute offsets, in memory order;
arrays are unrolled and nested structures are opened. -/
namespace ForeignCall

structure Piece where
  offset : Nat
  type : Scalar
  deriving DecidableEq

namespace Piece

def shift (distance : Nat) (piece : Piece) : Piece :=
  { piece with offset := distance + piece.offset }

/-- One past the last byte. -/
def stop (piece : Piece) : Nat := piece.offset + piece.type.size

/-- The scalar is naturally aligned. -/
def aligned (piece : Piece) : Bool := piece.offset % piece.type.alignment == 0

end Piece

/-- Copies of `pieces` at the multiples of `stride`. Nothing is repeated where there is nothing. -/
def repeatPieces (stride count : Nat) (pieces : List Piece) : List Piece :=
  if pieces.isEmpty then []
  else (List.range count).flatMap fun i => pieces.map (.shift (i * stride))

mutual
def Layout.pieces : Layout → List Piece
  | ⟨_, _, fields⟩ => fieldPieces fields
def fieldPieces : List (Field Layout) → List Piece
  | [] => []
  | ⟨⟨.scalar type, count⟩, offset⟩ :: rest =>
    (repeatPieces type.size count [⟨0, type⟩]).map (.shift offset) ++ fieldPieces rest
  | ⟨⟨.struct inner, count⟩, offset⟩ :: rest =>
    (repeatPieces inner.size count inner.pieces).map (.shift offset) ++ fieldPieces rest
end

def Element.pieces : Element Layout → List Piece
  | .scalar type => [⟨0, type⟩]
  | .struct inner => inner.pieces

def Field.pieces (field : Field Layout) : List Piece :=
  (repeatPieces field.element.size field.count field.element.pieces).map (.shift field.offset)

theorem fieldPieces_eq_flatMap (fields : List (Field Layout)) :
    fieldPieces fields = fields.flatMap Field.pieces := by
  induction fields with
  | nil => simp [fieldPieces]
  | cons field rest ih =>
    obtain ⟨⟨element, count⟩, offset⟩ := field
    cases element <;>
      simp [fieldPieces, Field.pieces, Element.pieces, Element.size, ih]

theorem Layout.pieces_eq (layout : Layout) : layout.pieces = layout.fields.flatMap Field.pieces := by
  cases layout
  rw [Layout.pieces, fieldPieces_eq_flatMap]

theorem repeatPieces_eq (stride count : Nat) (pieces : List Piece) :
    repeatPieces stride count pieces =
      (List.range count).flatMap fun i => pieces.map (.shift (i * stride)) := by
  cases pieces <;> simp [repeatPieces]

end ForeignCall
