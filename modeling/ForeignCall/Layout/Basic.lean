import ForeignCall.Scalar

/-! Memory layouts of structures. A field is a run of equal elements at an offset, and an element is
a scalar or a structure with a layout of its own. The same field shapes serve declarations, which
have no offsets yet, so they are stated for any type `α` of nested structure. -/
namespace ForeignCall

inductive Element (α : Type) where
  | scalar (type : Scalar)
  | struct (inner : α)
  deriving DecidableEq

/-- `count` consecutive elements; one for a plain field, any number for an array. -/
structure Member (α : Type) where
  element : Element α
  count : Nat
  deriving DecidableEq

/-- A member that has been given its place. -/
structure Field (α : Type) extends Member α where
  offset : Nat
  deriving DecidableEq

structure Layout where
  size : Nat
  alignment : Nat
  fields : List (Field Layout)

namespace Element

def size : Element Layout → Nat
  | scalar type => type.size
  | struct inner => inner.size

def alignment : Element Layout → Nat
  | scalar type => type.alignment
  | struct inner => inner.alignment

end Element

/-! Two layouts are equal when size, alignment and fields are, at every depth. -/

mutual
def Layout.decEq : (a b : Layout) → Decidable (a = b)
  | ⟨s, a, fs⟩, ⟨t, b, gs⟩ =>
    if header : s = t ∧ a = b then
      match decEqFields fs gs with
      | isTrue same => isTrue (by rw [header.1, header.2, same])
      | isFalse differ => isFalse fun h => differ (Layout.mk.inj h).2.2
    else isFalse fun h => header ⟨(Layout.mk.inj h).1, (Layout.mk.inj h).2.1⟩
def decEqFields : (fs gs : List (Field Layout)) → Decidable (fs = gs)
  | [], [] => isTrue rfl
  | [], _ :: _ | _ :: _, [] => isFalse nofun
  | ⟨⟨.scalar s, m⟩, o⟩ :: fs, ⟨⟨.scalar t, n⟩, p⟩ :: gs =>
    if header : s = t ∧ m = n ∧ o = p then
      match decEqFields fs gs with
      | isTrue same => isTrue (by rw [header.1, header.2.1, header.2.2, same])
      | isFalse differ => isFalse fun h => differ (List.cons.inj h).2
    else isFalse fun h => header (by cases h; exact ⟨rfl, rfl, rfl⟩)
  | ⟨⟨.struct k, m⟩, o⟩ :: fs, ⟨⟨.struct l, n⟩, p⟩ :: gs =>
    if header : m = n ∧ o = p then
      match k.decEq l, decEqFields fs gs with
      | isTrue inner, isTrue same => isTrue (by rw [header.1, header.2, inner, same])
      | isFalse differ, _ => isFalse fun h => differ (by cases h; rfl)
      | _, isFalse differ => isFalse fun h => differ (List.cons.inj h).2
    else isFalse fun h => header (by cases h; exact ⟨rfl, rfl⟩)
  | ⟨⟨.scalar _, _⟩, _⟩ :: _, ⟨⟨.struct _, _⟩, _⟩ :: _
  | ⟨⟨.struct _, _⟩, _⟩ :: _, ⟨⟨.scalar _, _⟩, _⟩ :: _ => isFalse (by intro h; cases h)
end

instance : DecidableEq Layout := Layout.decEq

end ForeignCall
