import Mathlib.Algebra.Group.Nat.Defs
import ForeignCall.Proofs.Exact

/-! Built layouts. A layout that a declaration has is exact, and so are all the layouts nested in it.
Their alignments lie between one and eight, which is what rounding relies on, and then a single sum
decides whether there is a layout at all. -/
namespace ForeignCall

/-- The layout of some steps, over nested layouts that are built in turn. -/
inductive Layout.Built : Layout → Prop where
  | ofSteps {steps : List (Step Layout)} {layout : Layout} :
      (∀ member ∈ Step.members steps, ∀ inner, member.element = .struct inner → Built inner) →
      Layout.ofSteps steps = .ok layout → Built layout

def Element.Built (element : Element Layout) : Prop :=
  ∀ inner, element = .struct inner → inner.Built

@[simp] theorem Element.scalar_built (type : Scalar) : (scalar type).Built := nofun

@[simp] theorem Element.struct_built {inner : Layout} : (struct inner).Built ↔ inner.Built :=
  ⟨fun built => built inner rfl, fun built _ same => struct.inj same ▸ built⟩

/-- The layout itself and the layouts nested in it at any depth. -/
inductive Layout.Contains : Layout → Layout → Prop where
  | self (layout : Layout) : Contains layout layout
  | nested {outer inner deep : Layout} {field : Field Layout} :
      field ∈ outer.fields → field.element = .struct inner → Contains inner deep →
      Contains outer deep

/-! Built layouts are the layouts of declarations. -/

theorem resolveSteps_eq_ok {steps : List (Step Layout)}
    (declared : ∀ member ∈ Step.members steps, ∀ inner, member.element = .struct inner →
      ∃ declaration : Declaration, declaration.layout = .ok inner) :
    ∃ sources, resolveSteps sources = .ok steps := by
  induction steps with
  | nil => exact ⟨[], by simp [resolveSteps, pure, Except.pure]⟩
  | cons step rest ih =>
    cases step with
    | pack limit =>
      obtain ⟨sources, resolved⟩ := ih declared
      refine ⟨.pack limit :: sources, ?_⟩
      rw [resolveSteps, resolved]
      rfl
    | member element count =>
      obtain ⟨head, tail⟩ := List.forall_mem_cons.mp declared
      obtain ⟨sources, resolved⟩ := ih tail
      cases element with
      | scalar type =>
        refine ⟨.member (.scalar type) count :: sources, ?_⟩
        rw [resolveSteps, resolved]
        rfl
      | struct inner =>
        obtain ⟨declaration, made⟩ := head inner rfl
        refine ⟨.member (.struct declaration) count :: sources, ?_⟩
        rw [resolveSteps, made, resolved]
        rfl

mutual
theorem Declaration.layout_built : ∀ (declaration : Declaration) {layout : Layout},
    declaration.layout = .ok layout → layout.Built
  | ⟨sources⟩, layout, made => by
    rw [Declaration.layout] at made
    obtain ⟨steps, resolved, made⟩ := bind_eq_ok.mp made
    exact .ofSteps (resolveSteps_built sources resolved) made
theorem resolveSteps_built : ∀ (sources : List (Step Declaration)) {steps : List (Step Layout)},
    resolveSteps sources = .ok steps → ∀ member ∈ Step.members steps, member.element.Built
  | [], steps, resolved => by
    cases resolved
    nofun
  | .member (.scalar type) count :: rest, steps, resolved => by
    simp only [resolveSteps, bind_eq_ok, pure, Except.pure, Except.ok.injEq] at resolved
    obtain ⟨later, tail, rfl⟩ := resolved
    exact List.forall_mem_cons.mpr ⟨nofun, resolveSteps_built rest tail⟩
  | .member (.struct declaration) count :: rest, steps, resolved => by
    simp only [resolveSteps, bind_eq_ok, pure, Except.pure, Except.ok.injEq] at resolved
    obtain ⟨inner, made, later, tail, rfl⟩ := resolved
    refine List.forall_mem_cons.mpr ⟨?_, resolveSteps_built rest tail⟩
    rintro _ ⟨⟩
    exact Declaration.layout_built declaration made
  | .pack limit :: rest, steps, resolved => by
    simp only [resolveSteps, bind_eq_ok, pure, Except.pure, Except.ok.injEq] at resolved
    obtain ⟨later, tail, rfl⟩ := resolved
    have built : ∀ member ∈ Step.members later, member.element.Built := resolveSteps_built rest tail
    exact built
end

theorem Layout.built_iff {layout : Layout} :
    layout.Built ↔ ∃ declaration : Declaration, declaration.layout = .ok layout := by
  constructor
  · intro built
    induction built with
    | ofSteps nested made ih =>
      obtain ⟨sources, resolved⟩ := resolveSteps_eq_ok ih
      refine ⟨⟨sources⟩, ?_⟩
      rw [Declaration.layout]
      exact bind_eq_ok.mpr ⟨_, resolved, made⟩
  · rintro ⟨declaration, made⟩
    exact declaration.layout_built made

/-! Alignments. -/

theorem capAlignment_bounds (pack : Option Nat) {alignment : Nat}
    (bounds : 0 < alignment ∧ alignment ≤ 8) :
    0 < capAlignment pack alignment ∧ capAlignment pack alignment ≤ 8 := by
  cases pack with
  | none => exact bounds
  | some limit =>
    simp only [capAlignment]
    omega

theorem Extent.exact_alignment_le {pack : Option Nat} {members : List (Member Layout)}
    {bound : Nat} (own : ∀ member ∈ members, member.alignmentIn pack ≤ bound) (start : Nat)
    {alignment : Nat} (first : alignment ≤ bound) :
    (exact pack start alignment members).alignment ≤ bound := by
  induction members generalizing start alignment with
  | nil => exact first
  | cons member rest ih =>
    obtain ⟨head, tail⟩ := List.forall_mem_cons.mp own
    exact ih tail _ (Nat.max_le.mpr ⟨first, head⟩)

theorem Member.alignmentIn_bounds (pack : Option Nat) {member : Member Layout}
    (nested : ∀ inner, member.element = .struct inner →
      0 < inner.alignment ∧ inner.alignment ≤ 8) :
    0 < member.alignmentIn pack ∧ member.alignmentIn pack ≤ 8 := by
  apply capAlignment_bounds
  cases element : member.element with
  | scalar type => exact ⟨type.size_pos, type.size_le⟩
  | struct inner => exact nested inner element

theorem Layout.Built.alignment_bounds {layout : Layout} (built : layout.Built) :
    0 < layout.alignment ∧ layout.alignment ≤ 8 := by
  induction built with
  | @ofSteps steps layout nested made ih =>
    have own (member : Member Layout) (within : member ∈ Step.members steps) :=
      Member.alignmentIn_bounds (Step.packing steps) (ih member within)
    obtain ⟨-, rfl⟩ := (ofMembers_eq_ok fun member within => (own member within).1).mp made
    exact ⟨Extent.exact_alignment_pos,
      Extent.exact_alignment_le (fun member within => (own member within).2) 0 (by decide)⟩

theorem Element.Built.alignmentIn_bounds {member : Member Layout} (built : member.element.Built)
    (pack : Option Nat) : 0 < member.alignmentIn pack ∧ member.alignmentIn pack ≤ 8 :=
  Member.alignmentIn_bounds pack fun inner element => (built inner element).alignment_bounds

theorem alignmentIn_pos {members : List (Member Layout)}
    (built : ∀ member ∈ members, member.element.Built) (pack : Option Nat) :
    ∀ member ∈ members, 0 < member.alignmentIn pack :=
  fun member within => (Element.Built.alignmentIn_bounds (built member within) pack).1

/-! What a built layout is. -/

namespace Layout

variable {pack : Option Nat} {members : List (Member Layout)}

theorem ofMembers_eq_ok_of_built (built : ∀ member ∈ members, member.element.Built)
    {layout : Layout} : ofMembers pack members = .ok layout ↔
      (Extent.exact pack 0 1 members).stop + (Extent.exact pack 0 1 members).alignment <
        sizeBound ∧ layout = exact pack members :=
  ofMembers_eq_ok (alignmentIn_pos built pack)

/-- Induction over the nesting: a built layout is exact, with numbers in range. -/
@[elab_as_elim] theorem Built.induct {motive : Layout → Prop}
    (step : ∀ pack members, (∀ member ∈ members, member.element.Built) →
      (∀ member ∈ members, ∀ inner, member.element = .struct inner → motive inner) →
      (Extent.exact pack 0 1 members).stop + (Extent.exact pack 0 1 members).alignment <
        sizeBound → motive (exact pack members))
    {layout : Layout} (built : layout.Built) : motive layout := by
  induction built with
  | @ofSteps steps layout nested made ih =>
    obtain ⟨fits, rfl⟩ := (ofMembers_eq_ok_of_built nested).mp made
    exact step _ _ nested ih fits

theorem Built.contains {layout deep : Layout} (built : layout.Built)
    (contains : layout.Contains deep) : deep.Built := by
  induction contains with
  | self layout => exact built
  | @nested outer inner deep field within element _ ih =>
    cases built with
    | @ofSteps steps _ nested made =>
      obtain ⟨-, rfl⟩ := (ofMembers_eq_ok_of_built nested).mp made
      have member := toMember_mem_of_mem_exact within
      exact ih (nested field.toMember member inner element)

end Layout

/-- Layouts come out in exact arithmetic or not at all. The end of the last member and the alignment
of the whole, as numbers without a bound, decide alone: below `2 ^ 64` together, no check on the way
fails; otherwise one of them does, and says so. -/
theorem layout_arithmetic_is_exact {steps : List (Step Layout)}
    (nested : ∀ member ∈ Step.members steps, member.element.Built) :
    let placed := Extent.exact (Step.packing steps) 0 1 (Step.members steps)
    (∀ layout, Layout.ofSteps steps = .ok layout ↔ placed.stop + placed.alignment < 2 ^ 64 ∧
      layout = ⟨roundUp placed.stop placed.alignment, placed.alignment, placed.fields⟩) ∧
    (2 ^ 64 ≤ placed.stop + placed.alignment → ∃ fault, Layout.ofSteps steps = .error fault ∧
      (fault.message = "attempt to add with overflow" ∨
        fault.message = "attempt to multiply with overflow")) := by
  intro placed
  have decided (layout : Layout) : Layout.ofSteps steps = .ok layout ↔
      placed.stop + placed.alignment < 2 ^ 64 ∧
        layout = Layout.exact (Step.packing steps) (Step.members steps) :=
    Layout.ofMembers_eq_ok_of_built nested
  refine ⟨decided, fun large => ?_⟩
  cases outcome : Layout.ofSteps steps with
  | ok layout =>
    have small := ((decided layout).mp outcome).1
    omega
  | error fault => exact ⟨fault, rfl, (Layout.ofMembers_error outcome).message⟩

def paddedPair : Layout :=
  ⟨16, 8, [⟨⟨.scalar .longLong, 1⟩, 0⟩, ⟨⟨.scalar .char, 1⟩, 8⟩]⟩

theorem paddedPair_built : paddedPair.Built := by
  have scalars : ∀ member ∈ Step.members [.member (.scalar .longLong) 1, .member (.scalar .char) 1],
      member.element.Built := by
    simp [Step.members]
  exact .ofSteps scalars rfl

/-- An array that fills all but sixteen bytes of the address space has a layout. Eight more bytes
would end below the bound, and their rounding does not. -/
theorem largest_array_is_laid_out :
    let array : List (Step Layout) := [.member (.struct paddedPair) (2 ^ 60 - 1)]
    (∀ member ∈ Step.members (array ++ [.member (.scalar .char) 8]), member.element.Built) ∧
    Layout.ofSteps array =
      .ok ⟨2 ^ 64 - 16, 8, [⟨⟨.struct paddedPair, 2 ^ 60 - 1⟩, 0⟩]⟩ ∧
    ∃ fault, Layout.ofSteps (array ++ [.member (.scalar .char) 8]) = .error fault ∧
      (fault.message = "attempt to add with overflow" ∨
        fault.message = "attempt to multiply with overflow") := by
  intro array
  have nested : ∀ member ∈ Step.members array, member.element.Built := by
    simp [array, Step.members, paddedPair_built]
  have longer : ∀ member ∈ Step.members (array ++ [.member (.scalar .char) 8]),
      member.element.Built := by
    simp [array, Step.members, paddedPair_built]
  refine ⟨longer, ?_, ?_⟩
  · exact ((layout_arithmetic_is_exact nested).1 _).mpr ⟨by decide, by decide⟩
  · exact (layout_arithmetic_is_exact longer).2 (by decide)

end ForeignCall
