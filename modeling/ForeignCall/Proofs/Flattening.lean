import Mathlib.Algebra.BigOperators.Group.List.Basic
import Mathlib.Algebra.GroupWithZero.Nat
import ForeignCall.Layout.Piece
import ForeignCall.RegisterFile
import ForeignCall.Proofs.Arrangement

/-! Flattening of built layouts. The scalars of a built layout come in the order of memory, apart from
each other and inside of the size; the first is at the start, and only an empty layout has none. So
no place that a traversal computes leaves 64 bits: `Layout.visit` checks every sum and product on the
way and arrives at the same scalars. -/
namespace ForeignCall

namespace Piece

@[simp] theorem shift_zero : Piece.shift 0 = id := by
  funext piece
  rw [shift, Nat.zero_add]
  rfl

@[simp] theorem shift_stop (distance : Nat) (piece : Piece) :
    (piece.shift distance).stop = distance + piece.stop :=
  Nat.add_assoc ..

@[simp] theorem shift_shift (first second : Nat) (piece : Piece) :
    (piece.shift first).shift second = piece.shift (second + first) := by
  simp [shift, Nat.add_assoc]

end Piece

/-- Scalars in order and apart, inside of so many bytes, with the first at the start. Bytes without a
scalar are padding behind one. -/
structure Orderly (size : Nat) (pieces : List Piece) : Prop where
  ordered : pieces.Pairwise fun earlier later => earlier.stop ≤ later.offset
  inside : ∀ piece ∈ pieces, piece.stop ≤ size
  first : ∀ piece ∈ pieces.head?, piece.offset = 0
  empty : size = 0 ↔ pieces = []

namespace Orderly

variable {pieces others : List Piece} {size rest place : Nat}

theorem nil : Orderly 0 [] := ⟨.nil, nofun, nofun, by simp⟩

theorem scalar (type : Scalar) : Orderly type.size [⟨0, type⟩] := by
  refine ⟨List.pairwise_singleton .., ?_, ?_, ?_⟩
  · simp [Piece.stop]
  · simp
  · simpa using Nat.pos_iff_ne_zero.mp type.size_pos

theorem append (before : Orderly size pieces) (behind : Orderly rest others)
    (apart : size ≤ place) (start : size = 0 → place = 0) :
    Orderly (place + rest) (pieces ++ others.map (.shift place)) := by
  refine ⟨List.pairwise_append.mpr ⟨before.ordered, ?_, ?_⟩, ?_, ?_, ?_⟩
  · refine List.pairwise_map.mpr (behind.ordered.imp fun ordered => ?_)
    rw [Piece.shift_stop]
    exact Nat.add_le_add_left ordered place
  · intro piece within other shifted
    obtain ⟨other, -, rfl⟩ := List.mem_map.mp shifted
    exact Nat.le_trans (before.inside piece within) (Nat.le_trans apart (Nat.le_add_right ..))
  · intro piece within
    rcases List.mem_append.mp within with within | shifted
    · have := before.inside piece within
      omega
    · obtain ⟨other, member, rfl⟩ := List.mem_map.mp shifted
      have := behind.inside other member
      rw [Piece.shift_stop]
      omega
  · cases pieces with
    | cons head tail => exact before.first
    | nil =>
      rw [start (before.empty.mpr rfl)]
      simpa [Piece.shift] using behind.first
  · rw [List.append_eq_nil_iff, List.map_eq_nil_iff, ← before.empty, ← behind.empty]
    omega

/-- Trailing padding, which only an empty layout lacks of necessity. -/
theorem pad (orderly : Orderly size pieces) (more : size ≤ place) (start : size = 0 → place = 0) :
    Orderly place pieces := by
  simpa using orderly.append .nil more start

theorem repeated (orderly : Orderly size pieces) (count : Nat) :
    Orderly (size * count) (repeatPieces size count pieces) := by
  rw [repeatPieces_eq]
  induction count with
  | zero => exact .nil
  | succ count ih =>
    rw [List.range_succ, List.flatMap_append, List.flatMap_singleton, Nat.mul_comm count,
      Nat.mul_succ]
    exact ih.append orderly (Nat.le_refl _) id

end Orderly

theorem Extent.exact_orderly {pack : Option Nat} {members : List (Member Layout)}
    (positive : ∀ member ∈ members, 0 < member.alignmentIn pack)
    (elements : ∀ member ∈ members, Orderly member.element.size member.element.pieces)
    {start : Nat} {pieces : List Piece} (before : Orderly start pieces) (alignment : Nat) :
    Orderly (exact pack start alignment members).stop
      (pieces ++ (exact pack start alignment members).fields.flatMap Field.pieces) := by
  -- On the fields still to come; `pieces` are those of the fields before them.
  induction members generalizing start pieces alignment with
  | nil => simpa [exact] using before
  | cons member rest ih =>
    obtain ⟨own, later⟩ := List.forall_mem_cons.mp positive
    obtain ⟨element, others⟩ := List.forall_mem_cons.mp elements
    have placed := before.append (element.repeated member.count) (le_roundUp own start)
      (by rintro rfl; exact roundUp_zero _)
    simp only [exact, List.flatMap_cons, ← List.append_assoc]
    exact ih later others placed _

theorem Layout.Built.orderly {layout : Layout} (built : layout.Built) :
    Orderly layout.size layout.pieces := by
  refine built.induct fun pack members nested ih fits => ?_
  have positive := alignmentIn_pos nested pack
  have elements : ∀ member ∈ members, Orderly member.element.size member.element.pieces := by
    intro member within
    cases element : member.element with
    | scalar type => exact .scalar type
    | struct inner => exact ih member within inner element
  have fields := Extent.exact_orderly positive elements .nil 1
  rw [List.nil_append] at fields
  rw [Layout.pieces_eq]
  refine fields.pad (le_roundUp Extent.exact_alignment_pos _) fun none => ?_
  rw [Layout.exact, none, roundUp_zero]

/-! Numbers of scalars. -/

/-- How many scalars of a type a layout has. -/
def Layout.visits (type : Scalar) (layout : Layout) : Nat :=
  layout.pieces.countP fun piece => piece.type = type

def Element.visits (type : Scalar) : Element Layout → Nat
  | scalar own => if own = type then 1 else 0
  | struct inner => inner.visits type

theorem Element.countP_pieces (type : Scalar) (element : Element Layout) :
    element.pieces.countP (fun piece => piece.type = type) = element.visits type := by
  cases element with
  | scalar own => simp [pieces, visits, List.countP_singleton]
  | struct inner => rfl

theorem countP_shift (type : Scalar) (distance : Nat) (pieces : List Piece) :
    (pieces.map (Piece.shift distance)).countP (fun piece => piece.type = type) =
      pieces.countP fun piece => piece.type = type := by
  rw [List.countP_map]
  rfl

theorem Layout.visits_eq_sum (type : Scalar) (layout : Layout) : layout.visits type =
    (layout.fields.map fun field => field.count * field.element.visits type).sum := by
  have one (field : Field Layout) : field.pieces.countP (fun piece => piece.type = type) =
      field.count * field.element.visits type := by
    rw [Field.pieces, countP_shift, repeatPieces_eq, List.countP_flatMap]
    simp only [Function.comp_def, countP_shift, Element.countP_pieces]
    simp
  rw [visits, Layout.pieces_eq, List.countP_flatMap]
  simp only [Function.comp_def, one]

/-! Traversal with checked numbers. -/

def elementPlace (base offset stride i : Nat) : Except Fault Nat := do
  let start ← checkedAdd base offset
  let distance ← checkedMul i stride
  checkedAdd start distance

/-- The scalars of all elements of an array. -/
def visitElements (visit : Nat → Except Fault (List Piece)) (base offset stride count : Nat) :
    Except Fault (List Piece) := do
  let elements ← (List.range count).mapM fun i => do visit (← elementPlace base offset stride i)
  return elements.flatten

mutual
/-- The scalars of a layout from `base` on, by a traversal that checks its numbers. -/
def Layout.visit : Layout → Nat → Except Fault (List Piece)
  | ⟨_, _, fields⟩, base => visitFields fields base
def visitFields : List (Field Layout) → Nat → Except Fault (List Piece)
  | [], _ => return []
  | ⟨⟨.scalar type, count⟩, offset⟩ :: rest, base => do
    let own ← visitElements (fun place => return [⟨place, type⟩]) base offset type.size count
    return own ++ (← visitFields rest base)
  | ⟨⟨.struct inner, count⟩, offset⟩ :: rest, base => do
    let own ← visitElements (fun place => inner.visit place) base offset inner.size count
    return own ++ (← visitFields rest base)
end

theorem mapM_eq_ok {f : α → Except ε β} {g : α → β} {xs : List α}
    (each : ∀ x ∈ xs, f x = .ok (g x)) : xs.mapM f = .ok (xs.map g) := by
  induction xs with
  | nil => rfl
  | cons x rest ih =>
    obtain ⟨own, others⟩ := List.forall_mem_cons.mp each
    rw [List.mapM_cons, own, ih others]
    rfl

namespace Element

def visit : Element Layout → Nat → Except Fault (List Piece)
  | scalar type, place => return [⟨place, type⟩]
  | struct inner, place => inner.visit place

/-- The element is visited without a failure wherever it lies in the address space. -/
def Visitable (element : Element Layout) : Prop :=
  ∀ place, place + element.size < sizeBound →
    element.visit place = .ok (element.pieces.map (.shift place))

theorem scalar_visitable (type : Scalar) : (scalar type).Visitable := by
  intro place _
  rfl

end Element

theorem elementPlace_eq_ok {base offset stride i : Nat}
    (fits : base + offset + i * stride < sizeBound) :
    elementPlace base offset stride i = .ok (base + offset + i * stride) := by
  have sum : checkedAdd base offset = .ok (base + offset) :=
    checkedAdd_eq_ok.mpr ⟨by omega, rfl⟩
  have product : checkedMul i stride = .ok (i * stride) := checkedMul_eq_ok.mpr ⟨by omega, rfl⟩
  have place : checkedAdd (base + offset) (i * stride) = .ok (base + offset + i * stride) :=
    checkedAdd_eq_ok.mpr ⟨fits, rfl⟩
  exact bind_eq_ok.mpr ⟨_, sum, bind_eq_ok.mpr ⟨_, product, place⟩⟩

theorem Field.visitElements_eq_ok {field : Field Layout} (visitable : field.element.Visitable)
    {base : Nat} (fits : base + field.stop < sizeBound) :
    visitElements field.element.visit base field.offset field.element.size field.count =
      .ok (field.pieces.map (.shift base)) := by
  have each : ∀ i ∈ List.range field.count, (do
      field.element.visit (← elementPlace base field.offset field.element.size i)) =
      .ok (field.element.pieces.map (.shift (base + field.offset + i * field.element.size))) := by
    intro i within
    -- Element `i` ends with the array or before, and so does every sum on the way to it.
    have last : (i + 1) * field.element.size ≤ field.count * field.element.size :=
      Nat.mul_le_mul_right _ (List.mem_range.mp within)
    rw [Nat.succ_mul] at last
    rw [Field.stop, Nat.mul_comm field.element.size] at fits
    exact bind_eq_ok.mpr ⟨_, elementPlace_eq_ok (by omega), visitable _ (by omega)⟩
  have whole : ((List.range field.count).map fun i => field.element.pieces.map
      (Piece.shift (base + field.offset + i * field.element.size))).flatten =
      field.pieces.map (Piece.shift base) := by
    rw [Field.pieces, repeatPieces_eq, ← List.flatMap_def, List.map_flatMap, List.map_flatMap]
    simp [Function.comp_def, Nat.add_assoc]
  rw [visitElements, mapM_eq_ok each, ← whole]
  rfl

theorem visitFields_cons (field : Field Layout) (rest : List (Field Layout)) (base : Nat) :
    visitFields (field :: rest) base = (do
      let own ← visitElements field.element.visit base field.offset field.element.size field.count
      return own ++ (← visitFields rest base)) := by
  obtain ⟨⟨element, count⟩, offset⟩ := field
  cases element <;> rw [visitFields] <;> rfl

theorem visitFields_eq_ok {fields : List (Field Layout)} {base : Nat}
    (visitable : ∀ field ∈ fields, field.element.Visitable)
    (fits : ∀ field ∈ fields, base + field.stop < sizeBound) :
    visitFields fields base = .ok ((fields.flatMap Field.pieces).map (.shift base)) := by
  induction fields with
  | nil => simp [visitFields, pure, Except.pure]
  | cons field rest ih =>
    obtain ⟨own, others⟩ := List.forall_mem_cons.mp visitable
    obtain ⟨ends, later⟩ := List.forall_mem_cons.mp fits
    rw [visitFields_cons, field.visitElements_eq_ok own ends, ih others later, List.flatMap_cons,
      List.map_append]
    rfl

theorem Layout.Built.visit_eq_ok {layout : Layout} (built : layout.Built) :
    (Element.struct layout).Visitable := by
  refine built.induct fun pack members nested ih fits => ?_
  have positive := alignmentIn_pos nested pack
  have visitable : ∀ field ∈ (Layout.exact pack members).fields, field.element.Visitable := by
    intro field within
    have member := Layout.toMember_mem_of_mem_exact within
    cases element : field.element with
    | scalar type => exact Element.scalar_visitable type
    | struct inner => exact ih field.toMember member inner element
  intro base fits
  have ends : ∀ field ∈ (Layout.exact pack members).fields, base + field.stop < sizeBound := by
    intro field within
    have covered := Layout.exact_covers positive field within
    exact Nat.lt_of_le_of_lt (Nat.add_le_add_left covered base) fits
  have visited := visitFields_eq_ok visitable ends
  rw [Element.visit, Element.pieces, Layout.pieces_eq]
  exact visited

theorem Layout.Built.size_lt {layout : Layout} (built : layout.Built) : layout.size < sizeBound := by
  refine built.induct fun pack members nested ih fits => ?_
  have rounded : (Layout.exact pack members).size < _ :=
    roundUp_lt Extent.exact_alignment_pos _
  exact Nat.lt_trans rounded fits

theorem Layout.Built.visit_zero {layout : Layout} (built : layout.Built) :
    layout.visit 0 = .ok layout.pieces := by
  have inRange : 0 + layout.size < sizeBound := by
    rw [Nat.zero_add]
    exact built.size_lt
  simpa [Element.visit, Element.pieces] using built.visit_eq_ok 0 inRange

theorem Layout.Built.begin_in_two {layout : Layout} (built : layout.Built)
    (small : layout.size ≤ 16) : ∀ piece ∈ layout.pieces, piece.offset / slotBytes < 2 := by
  intro piece within
  have inside := built.orderly.inside piece within
  have positive := piece.type.size_pos
  rw [Piece.stop] at inside
  simp only [slotBytes]
  omega

/-- Flattening a built layout gives scalars in order and apart, inside of its size and from its start
on, as many of each type as the fields have. A traversal that checks its sums and products arrives at
them without a failure. In a layout of sixteen bytes, all begin in the first two eightbytes. -/
theorem flattening_is_orderly {layout : Layout} (built : layout.Built) :
    layout.pieces.Pairwise (fun earlier later => earlier.stop ≤ later.offset) ∧
    (∀ piece ∈ layout.pieces, piece.stop ≤ layout.size) ∧
    (∀ piece ∈ layout.pieces.head?, piece.offset = 0) ∧
    (layout.size = 0 ↔ layout.pieces = []) ∧
    (∀ type, layout.visits type =
      (layout.fields.map fun field => field.count * field.element.visits type).sum) ∧
    layout.visit 0 = .ok layout.pieces ∧
    (layout.size ≤ 16 → ∀ piece ∈ layout.pieces, piece.offset / slotBytes < 2) := by
  have orderly := built.orderly
  exact ⟨orderly.ordered, orderly.inside, orderly.first, orderly.empty,
    fun type => layout.visits_eq_sum type, built.visit_zero, built.begin_in_two⟩

def shortPair : Layout :=
  ⟨4, 2, [⟨⟨.scalar .short, 1⟩, 0⟩, ⟨⟨.scalar .char, 1⟩, 2⟩]⟩

theorem shortPair_built : shortPair.Built := by
  have scalars : ∀ member ∈ Step.members [.member (.scalar .short) 1, .member (.scalar .char) 1],
      member.element.Built := by
    simp [Step.members]
  exact .ofSteps scalars rfl

/-- An empty array, two pairs, a character and a number, packed to three bytes. -/
def oddArrays : Layout :=
  ⟨15, 3, [⟨⟨.scalar .int, 0⟩, 0⟩, ⟨⟨.struct shortPair, 2⟩, 0⟩, ⟨⟨.scalar .char, 1⟩, 8⟩,
    ⟨⟨.scalar .float, 1⟩, 9⟩]⟩

theorem oddArrays_built : oddArrays.Built := by
  have nested : ∀ member ∈ Step.members [.pack 3, .member (.scalar .int) 0,
      .member (.struct shortPair) 2, .member (.scalar .char) 1, .member (.scalar .float) 1],
      member.element.Built := by
    simp [Step.members, shortPair_built]
  exact .ofSteps nested rfl

theorem odd_arrays_are_orderly :
    oddArrays.Built ∧ oddArrays.visits .char = 3 ∧
    oddArrays.visit 0 =
      .ok [⟨0, .short⟩, ⟨2, .char⟩, ⟨4, .short⟩, ⟨6, .char⟩, ⟨8, .char⟩, ⟨9, .float⟩] ∧
    ∀ piece ∈ oddArrays.pieces, piece.offset / slotBytes < 2 := by
  obtain ⟨-, -, -, -, visits, visited, inRange⟩ := flattening_is_orderly oddArrays_built
  exact ⟨oddArrays_built, visits .char, visited, inRange (by decide)⟩

end ForeignCall
