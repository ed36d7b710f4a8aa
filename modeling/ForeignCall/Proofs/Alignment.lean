import Mathlib.Data.Nat.Prime.Basic
import ForeignCall.Proofs.Nesting
import ForeignCall.Proofs.Unrolling

/-! Alignment of scalars. Every packing around a scalar caps its alignment. As long as the caps are
powers of two, a scalar of a built layout lies at a multiple of what they leave of its natural
alignment, through arrays and nested structures. Caps of eight or more leave all of it. -/
namespace ForeignCall

/-! Alignments divide eight, and of two such numbers the smaller divides the larger. -/

theorem dvd_of_le {a b : Nat} (first : a ∣ 8) (second : b ∣ 8) (le : a ≤ b) : a ∣ b := by
  obtain ⟨j, -, rfl⟩ := (Nat.dvd_prime_pow Nat.prime_two (m := 3)).mp first
  obtain ⟨k, -, rfl⟩ := (Nat.dvd_prime_pow Nat.prime_two (m := 3)).mp second
  exact Nat.pow_dvd_pow 2 ((Nat.pow_le_pow_iff_right (by decide)).mp le)

/-- Limits that turn divisors of eight into others: powers of two, a zero, which acts as one, and
whatever is too large to matter. -/
def Regular (limit : Nat) : Prop := limit = 0 ∨ limit.isPowerOfTwo ∨ 8 ≤ limit

section Capping

variable {pack : Option Nat} {alignment wider : Nat}

theorem capAlignment_dvd (regular : ∀ limit ∈ pack, Regular limit) (binary : alignment ∣ 8) :
    capAlignment pack alignment ∣ alignment := by
  cases pack with
  | none => exact Nat.dvd_refl _
  | some limit =>
    simp only [capAlignment]
    by_cases high : alignment ≤ max limit 1
    · rw [Nat.min_eq_left high]
    rw [Nat.min_eq_right (Nat.le_of_not_le high)]
    rcases regular limit rfl with rfl | ⟨k, rfl⟩ | large
    · exact Nat.one_dvd _
    · obtain ⟨j, -, rfl⟩ := (Nat.dvd_prime_pow Nat.prime_two (m := 3)).mp binary
      have positive := Nat.two_pow_pos k
      have below : 2 ^ k ≤ 2 ^ j := by omega
      rw [Nat.max_eq_left positive]
      exact Nat.pow_dvd_pow 2 ((Nat.pow_le_pow_iff_right (by decide)).mp below)
    · have small := Nat.le_of_dvd (by decide) binary
      omega

theorem capAlignment_le_capAlignment (le : alignment ≤ wider) :
    capAlignment pack alignment ≤ capAlignment pack wider := by
  cases pack with
  | none => exact le
  | some limit =>
    simp only [capAlignment]
    omega

theorem capAlignment_dvd_capAlignment (regular : ∀ limit ∈ pack, Regular limit)
    (dvd : alignment ∣ wider) (binary : wider ∣ 8) :
    capAlignment pack alignment ∣ capAlignment pack wider := by
  have first := (capAlignment_dvd regular (dvd.trans binary)).trans (dvd.trans binary)
  have second := (capAlignment_dvd regular binary).trans binary
  have positive := Nat.pos_of_dvd_of_pos binary (by decide)
  exact dvd_of_le first second (capAlignment_le_capAlignment (Nat.le_of_dvd positive dvd))

end Capping

namespace Layout

variable {pack : Option Nat} {members : List (Member Layout)}

/-- The alignment of the whole is the largest of its members', and one if there is no larger. -/
theorem exact_alignment_max :
    (exact pack members).alignment ∈ 1 :: members.map (Member.alignmentIn pack) ∧
      ∀ alignment ∈ 1 :: members.map (Member.alignmentIn pack),
        alignment ≤ (exact pack members).alignment := by
  apply List.max?_eq_some_iff.mp
  rw [List.max?_cons', exact, Extent.exact_alignment]

theorem exact_alignment_attained (pack : Option Nat) (members : List (Member Layout)) :
    (exact pack members).alignment = 1 ∨
    ∃ member ∈ members, member.alignmentIn pack = (exact pack members).alignment := by
  rcases List.mem_cons.mp exact_alignment_max.1 with same | mapped
  · exact .inl same
  · exact .inr (List.mem_map.mp mapped)

theorem exact_alignment_dvd (own : ∀ member ∈ members, member.alignmentIn pack ∣ 8) :
    (exact pack members).alignment ∣ 8 := by
  rcases exact_alignment_attained pack members with same | ⟨member, within, same⟩
  · rw [same]
    exact Nat.one_dvd 8
  · rw [← same]
    exact own member within

theorem alignmentIn_dvd_exact (own : ∀ member ∈ members, member.alignmentIn pack ∣ 8) :
    ∀ member ∈ members, member.alignmentIn pack ∣ (exact pack members).alignment := by
  intro member within
  apply dvd_of_le (own member within) (exact_alignment_dvd own)
  exact exact_alignment_max.2 _ (List.mem_cons_of_mem _ (List.mem_map_of_mem within))

end Layout

/-! Scalars of a declaration. -/

/-- A scalar, and the limits of the packings around it from the outermost on. -/
structure Leaf where
  type : Scalar
  limits : List Nat
  deriving DecidableEq

namespace Leaf

/-- What the limits leave of the natural alignment; a limit of zero acts as one. -/
def alignment (leaf : Leaf) : Nat :=
  leaf.limits.foldr (fun limit least => min least (max limit 1)) leaf.type.alignment

def under (pack : Option Nat) (leaf : Leaf) : Leaf :=
  { leaf with limits := pack.toList ++ leaf.limits }

theorem under_alignment (pack : Option Nat) (leaf : Leaf) :
    (leaf.under pack).alignment = capAlignment pack leaf.alignment := by
  cases pack <;> rfl

theorem alignment_of_large {leaf : Leaf} (large : ∀ limit ∈ leaf.limits, 8 ≤ limit) :
    leaf.alignment = leaf.type.alignment := by
  obtain ⟨type, limits⟩ := leaf
  have small : type.alignment ≤ 8 := type.size_le
  induction limits with
  | nil => rfl
  | cons limit rest ih =>
    obtain ⟨own, others⟩ := List.forall_mem_cons.mp large
    have inner : rest.foldr _ type.alignment = type.alignment := ih others
    simp only [alignment, List.foldr_cons, inner]
    omega

end Leaf

mutual
/-- The scalars of a declaration, in the order in which flattening meets them. -/
def Declaration.leaves : Declaration → List Leaf
  | ⟨steps⟩ => (stepLeaves steps).map (.under (Step.packing steps))
def stepLeaves : List (Step Declaration) → List Leaf
  | [] => []
  | .member (.scalar type) count :: rest => List.replicate count ⟨type, []⟩ ++ stepLeaves rest
  | .member (.struct inner) count :: rest =>
    (List.replicate count inner.leaves).flatten ++ stepLeaves rest
  | .pack _ :: rest => stepLeaves rest
end

def Element.leaves : Element Declaration → List Leaf
  | .scalar type => [⟨type, []⟩]
  | .struct inner => inner.leaves

def Member.leaves (source : Member Declaration) : List Leaf :=
  (List.replicate source.count source.element.leaves).flatten

theorem stepLeaves_eq (steps : List (Step Declaration)) :
    stepLeaves steps = (Step.members steps).flatMap Member.leaves := by
  induction steps with
  | nil => rfl
  | cons step rest ih =>
    cases step with
    | pack limit => exact ih
    | member element count =>
      have own : stepLeaves (.member element count :: rest) =
          Member.leaves ⟨element, count⟩ ++ stepLeaves rest := by
        cases element with
        | scalar type => simp [stepLeaves, Member.leaves, Element.leaves]
        | struct inner => rfl
      exact own.trans (congrArg _ ih)

theorem Declaration.leaves_eq (declaration : Declaration) : declaration.leaves =
    ((Step.members declaration.steps).flatMap Member.leaves).map
      (.under (Step.packing declaration.steps)) := by
  obtain ⟨steps⟩ := declaration
  rw [Declaration.leaves, stepLeaves_eq]

/-- The limits around a scalar are in force in its own declaration or in one that it is nested in. -/
theorem Declaration.Everywhere.leaf_limits {allowed : Nat → Prop} {declaration : Declaration}
    (kept : declaration.Everywhere (Step.Limits allowed)) :
    ∀ leaf ∈ declaration.leaves, ∀ limit ∈ leaf.limits, allowed limit := by
  induction kept with
  | @intro declaration own nested ih =>
    intro leaf within limit around
    rw [declaration.leaves_eq] at within
    obtain ⟨inside, member, rfl⟩ := List.mem_map.mp within
    obtain ⟨source, declared, repeated⟩ := List.mem_flatMap.mp member
    obtain ⟨leaves, copy, inside'⟩ := List.mem_flatten.mp repeated
    rw [List.eq_of_mem_replicate copy] at inside'
    rcases List.mem_append.mp around with packing | around
    · exact own limit (Option.mem_toList.mp packing)
    · cases element : source.element with
      | scalar type =>
        rw [element, Element.leaves, List.mem_singleton] at inside'
        subst inside'
        cases around
      | struct inner =>
        rw [element] at inside'
        exact ih source declared inner element _ inside' limit around

/-! Scalars in a layout. -/

/-- The scalar lies at a multiple of its alignment, which divides that of what it belongs to. -/
structure Suited (alignment : Nat) (piece : Piece) (leaf : Leaf) : Prop where
  type : piece.type = leaf.type
  offset : leaf.alignment ∣ piece.offset
  bound : leaf.alignment ∣ alignment

namespace Suited

variable {pack : Option Nat} {alignment : Nat}

theorem widen {wider : Nat} {piece : Piece} {leaf : Leaf} (suited : Suited alignment piece leaf)
    (dvd : alignment ∣ wider) : Suited wider piece leaf :=
  ⟨suited.type, suited.offset, suited.bound.trans dvd⟩

theorem shift {piece : Piece} {leaf : Leaf} (suited : Suited alignment piece leaf)
    (regular : ∀ limit ∈ pack, Regular limit) (binary : alignment ∣ 8) {place : Nat}
    (multiple : capAlignment pack alignment ∣ place) :
    Suited (capAlignment pack alignment) (piece.shift place) (leaf.under pack) := by
  have capped := capAlignment_dvd_capAlignment regular suited.bound binary
  have own := capAlignment_dvd regular (suited.bound.trans binary)
  refine ⟨suited.type, ?_, ?_⟩
  · rw [leaf.under_alignment]
    exact Nat.dvd_add (capped.trans multiple) (own.trans suited.offset)
  · rw [leaf.under_alignment]
    exact capped

theorem repeated {pieces : List Piece} {leaves : List Leaf}
    (suited : List.Forall₂ (Suited alignment) pieces leaves)
    (regular : ∀ limit ∈ pack, Regular limit) (binary : alignment ∣ 8) {stride : Nat}
    (whole : alignment ∣ stride) {place : Nat} (multiple : capAlignment pack alignment ∣ place)
    (count : Nat) : List.Forall₂ (Suited (capAlignment pack alignment))
      ((repeatPieces stride count pieces).map (.shift place))
      ((List.replicate count leaves).flatten.map (.under pack)) := by
  rw [repeatPieces_eq]
  induction count with
  | zero => exact .nil
  | succ count ih =>
    rw [List.range_succ, List.flatMap_append, List.flatMap_singleton, List.map_append,
      List.replicate_succ', List.flatten_concat, List.map_append]
    refine List.rel_append ih ?_
    have next : capAlignment pack alignment ∣ place + count * stride :=
      Nat.dvd_add multiple (((capAlignment_dvd regular binary).trans whole).mul_left count)
    simp only [List.map_map, List.forall₂_map_left_iff, List.forall₂_map_right_iff,
      Function.comp_apply, Piece.shift_shift]
    exact suited.imp fun piece leaf own => own.shift regular binary next

end Suited

/-- An element whose scalars, as declared, lie at multiples of their alignments. Its own alignment
divides its size, so the same holds in an array. -/
structure Element.Placed (source : Element Declaration) (element : Element Layout) : Prop where
  binary : element.alignment ∣ 8
  whole : element.alignment ∣ element.size
  suited : List.Forall₂ (Suited element.alignment) element.pieces source.leaves

theorem Element.scalar_placed (type : Scalar) : Placed (.scalar type) (.scalar type) :=
  ⟨type.size_dvd, Nat.dvd_refl _, .cons ⟨rfl, Nat.dvd_zero _, Nat.dvd_refl _⟩ .nil⟩

section Placing

variable {pack : Option Nat} {sources : List (Member Declaration)} {members : List (Member Layout)}

theorem Extent.exact_suited (regular : ∀ limit ∈ pack, Regular limit)
    (placed : List.Forall₂ (fun source member => member.count = source.count ∧
      source.element.Placed member.element) sources members) {alignment : Nat}
    (own : ∀ member ∈ members, member.alignmentIn pack ∣ alignment) (start least : Nat) :
    List.Forall₂ (Suited alignment)
      ((exact pack start least members).fields.flatMap Field.pieces)
      ((sources.flatMap Member.leaves).map (.under pack)) := by
  induction placed generalizing start least with
  | nil => exact .nil
  | @cons source member sources rest head _ ih =>
    obtain ⟨count, element⟩ := head
    obtain ⟨first, others⟩ := List.forall_mem_cons.mp own
    have field := Suited.repeated element.suited regular element.binary element.whole
      (roundUp_dvd start (member.alignmentIn pack)) source.count
    rw [← count] at field
    have pieces : List.Forall₂ (Suited alignment) (member.place pack start).pieces
        (source.leaves.map (.under pack)) := by
      rw [Member.leaves, ← count]
      exact field.imp fun piece leaf suited => suited.widen first
    rw [List.flatMap_cons, List.map_append]
    exact List.rel_append pieces (ih others _ _)

theorem Layout.exact_placed (regular : ∀ limit ∈ pack, Regular limit)
    (placed : List.Forall₂ (fun source member => member.count = source.count ∧
      source.element.Placed member.element) sources members) :
    (exact pack members).alignment ∣ 8 ∧ (exact pack members).alignment ∣ (exact pack members).size ∧
      List.Forall₂ (Suited (exact pack members).alignment) (exact pack members).pieces
        ((sources.flatMap Member.leaves).map (.under pack)) := by
  have own : ∀ member ∈ members, member.alignmentIn pack ∣ 8 := by
    intro member within
    obtain ⟨source, -, -, element⟩ := exists_of_forall₂ placed member within
    exact (capAlignment_dvd regular element.binary).trans element.binary
  refine ⟨exact_alignment_dvd own, roundUp_dvd .., ?_⟩
  rw [Layout.pieces_eq]
  exact Extent.exact_suited regular placed (alignmentIn_dvd_exact own) 0 1

end Placing

theorem Declaration.Everywhere.placed {declaration : Declaration} {layout : Layout}
    (kept : declaration.Everywhere (Step.Limits Regular)) (made : declaration.layout = .ok layout) :
    Element.Placed (.struct declaration) (.struct layout) := by
  refine kept.induct (fun declaration members regular follow _ => ?_) made
  have placed : List.Forall₂ (fun source member => member.count = source.count ∧
      source.element.Placed member.element) (Step.members declaration.steps) members := by
    refine follow.imp fun source member follows => ⟨follows.count, ?_⟩
    exact follows.element.related Element.scalar_placed
  obtain ⟨binary, whole, suited⟩ := Layout.exact_placed regular placed
  refine ⟨binary, whole, ?_⟩
  rw [Element.leaves, declaration.leaves_eq]
  exact suited

theorem suited_aligned {alignment : Nat} {pieces : List Piece} {leaves : List Leaf}
    (suited : List.Forall₂ (Suited alignment) pieces leaves)
    (large : ∀ leaf ∈ leaves, ∀ limit ∈ leaf.limits, 8 ≤ limit) :
    ∀ piece ∈ pieces, piece.aligned := by
  intro piece within
  obtain ⟨leaf, declared, own⟩ := exists_of_forall₂ suited.flip piece within
  have natural := leaf.alignment_of_large (large leaf declared)
  apply piece.aligned_iff.mpr
  rw [own.type, ← natural]
  exact own.offset

/-- Naturally aligned scalars are no reason to keep an aggregate out of the registers. -/
theorem RegisterFile.classify_sysv_not_unaligned (file : RegisterFile) {layout : Layout}
    (aligned : ∀ piece ∈ layout.pieces, piece.aligned) (data : List Byte) :
    .unaligned ∉ (file.classify .sysv layout data).records := by
  simp only [classify, classifySysV, List.all_eq_true.mpr aligned, if_true]
  repeat' split
  all_goals simp [Outcome.quiet]

/-- Packings by powers of two, at any depth, leave every scalar at a multiple of the least of its
natural alignment and the limits around it. Where no packing has a limit below eight, the scalars are
naturally aligned: each has its bytes in one eightbyte, and no aggregate goes to memory on their
account. -/
theorem scalars_keep_their_alignment {declaration : Declaration} {layout : Layout}
    (made : declaration.layout = .ok layout) :
    (declaration.Everywhere (Step.Limits fun limit => limit = 0 ∨ limit.isPowerOfTwo) →
      List.Forall₂ (fun piece leaf => piece.type = leaf.type ∧ leaf.alignment ∣ piece.offset)
        layout.pieces declaration.leaves) ∧
    (declaration.Everywhere (Step.Limits (8 ≤ ·)) →
      (∀ piece ∈ layout.pieces, piece.type.alignment ∣ piece.offset ∧
        ∃ index, ∀ byte, piece.offset ≤ byte → byte < piece.stop → byte / slotBytes = index) ∧
      ∀ (file : RegisterFile) (data : List Byte),
        .unaligned ∉ (file.classify .sysv layout data).records) := by
  constructor
  · intro kept
    have regular : declaration.Everywhere (Step.Limits Regular) :=
      kept.mono fun steps limits limit within => (limits limit within).imp_right .inl
    exact (regular.placed made).suited.imp fun piece leaf suited => ⟨suited.type, suited.offset⟩
  · intro kept
    have regular : declaration.Everywhere (Step.Limits Regular) :=
      kept.mono fun steps limits limit within => .inr (.inr (limits limit within))
    have aligned := suited_aligned (regular.placed made).suited kept.leaf_limits
    refine ⟨fun piece within => ⟨piece.aligned_iff.mp (aligned piece within), ?_⟩, fun file data => ?_⟩
    · obtain ⟨index, -, bytes⟩ :=
        (declaration.layout_built made).one_eightbyte within (aligned piece within)
      exact ⟨index, bytes⟩
    · exact file.classify_sysv_not_unaligned aligned data

def tightPair : Declaration :=
  ⟨[.member (.scalar .char) 1, .pack 2, .member (.scalar .double) 1]⟩

/-- An array of such pairs, in a structure packed to four. -/
def tightPairs : Declaration :=
  ⟨[.member (.scalar .char) 1, .member (.struct tightPair) 2, .pack 4, .member (.scalar .int) 1]⟩

theorem tightPairs_limits : tightPairs.Everywhere
    (Step.Limits fun limit => limit = 0 ∨ limit.isPowerOfTwo) := by
  have four : Step.Limits (fun limit => limit = 0 ∨ limit.isPowerOfTwo) tightPairs.steps := by
    rintro _ ⟨⟩
    exact .inr ⟨2, rfl⟩
  have two : Step.Limits (fun limit => limit = 0 ∨ limit.isPowerOfTwo) tightPair.steps := by
    rintro _ ⟨⟩
    exact .inr ⟨1, rfl⟩
  have pair := Declaration.Everywhere.intro two (by simp [tightPair, Step.members])
  have nested : ∀ source ∈ Step.members tightPairs.steps, source.element.Everywhere
      (Step.Limits fun limit => limit = 0 ∨ limit.isPowerOfTwo) := by
    simp [tightPairs, Step.members, pair]
  exact .intro four nested

/-- Packed to a limit that is no power of two, and too large to matter. -/
def loosePair : Declaration :=
  ⟨[.pack 9, .member (.scalar .char) 1, .member (.scalar .float) 2]⟩

theorem loosePair_limits : loosePair.Everywhere (Step.Limits (8 ≤ ·)) := by
  have nine : Step.Limits (8 ≤ ·) loosePair.steps := by
    rintro _ ⟨⟩
    decide
  exact .intro nine (by simp [loosePair, Step.members])

theorem packed_scalars_keep_their_alignment :
    (∃ layout, tightPairs.layout = .ok layout ∧ layout.size = 28 ∧
      tightPairs.Everywhere (Step.Limits fun limit => limit = 0 ∨ limit.isPowerOfTwo) ∧
      List.Forall₂ (fun (piece : Piece) (leaf : Leaf) =>
          piece.type = leaf.type ∧ leaf.alignment ∣ piece.offset)
        layout.pieces [⟨.char, [4]⟩, ⟨.char, [4, 2]⟩, ⟨.double, [4, 2]⟩, ⟨.char, [4, 2]⟩,
          ⟨.double, [4, 2]⟩, ⟨.int, [4]⟩]) ∧
    ∃ layout, loosePair.layout = .ok layout ∧ layout.size = 12 ∧
      loosePair.Everywhere (Step.Limits (8 ≤ ·)) ∧
      ∀ piece ∈ layout.pieces, piece.type.alignment ∣ piece.offset := by
  obtain ⟨tight, made⟩ : ∃ layout, tightPairs.layout = .ok layout := ⟨_, rfl⟩
  obtain ⟨loose, built⟩ : ∃ layout, loosePair.layout = .ok layout := ⟨_, rfl⟩
  have least := (scalars_keep_their_alignment made).1 tightPairs_limits
  have natural := ((scalars_keep_their_alignment built).2 loosePair_limits).1
  refine ⟨⟨tight, made, ?_, tightPairs_limits, least⟩, loose, built, ?_, loosePair_limits,
    fun piece within => (natural piece within).1⟩
  · cases made
    rfl
  · cases built
    rfl

end ForeignCall
