import Mathlib.Data.List.Chain
import Mathlib.Data.List.Forall2
import Mathlib.Order.Bounds.Defs
import ForeignCall.Proofs.Built

/-! Arrangements of fields. The rules for a structure in memory are that fields lie in the order of
their declaration, that none lies over another, and that each starts at a multiple of its alignment.
A built layout keeps the rules, and no other way to keep them puts any field earlier. -/
namespace ForeignCall

/-- Fields in order, without overlap, each at a multiple of its alignment. -/
structure Arranged (pack : Option Nat) (fields : List (Field Layout)) : Prop where
  aligned : ∀ field ∈ fields, field.alignmentIn pack ∣ field.offset
  ordered : fields.IsChain fun earlier later => earlier.stop ≤ later.offset

namespace Extent

variable {pack : Option Nat} {members : List (Member Layout)}

theorem exact_aligned (start alignment : Nat) :
    ∀ field ∈ (exact pack start alignment members).fields,
      field.alignmentIn pack ∣ field.offset := by
  induction members generalizing start alignment with
  | nil => nofun
  | cons member rest ih => exact List.forall_mem_cons.mpr ⟨roundUp_dvd .., ih _ _⟩

theorem start_le_exact_offset (positive : ∀ member ∈ members, 0 < member.alignmentIn pack)
    (start alignment : Nat) :
    ∀ field ∈ (exact pack start alignment members).fields, start ≤ field.offset := by
  induction members generalizing start alignment with
  | nil => nofun
  | cons member rest ih =>
    obtain ⟨own, others⟩ := List.forall_mem_cons.mp positive
    refine List.forall_mem_cons.mpr ⟨le_roundUp own start, fun field within => ?_⟩
    exact Nat.le_trans (Member.start_le_place_stop own start) (ih others _ _ field within)

theorem exact_ordered (positive : ∀ member ∈ members, 0 < member.alignmentIn pack)
    (start alignment : Nat) : (exact pack start alignment members).fields.Pairwise
      fun earlier later => earlier.stop ≤ later.offset := by
  induction members generalizing start alignment with
  | nil => exact .nil
  | cons member rest ih =>
    obtain ⟨own, others⟩ := List.forall_mem_cons.mp positive
    exact .cons (start_le_exact_offset others _ _) (ih others _ _)

theorem exact_arranged (positive : ∀ member ∈ members, 0 < member.alignmentIn pack)
    (start alignment : Nat) : Arranged pack (exact pack start alignment members).fields :=
  ⟨exact_aligned _ _, (exact_ordered positive _ _).isChain⟩

theorem exact_least {others : List (Field Layout)} (arranged : Arranged pack others)
    {start : Nat} (above : ∀ field ∈ others.head?, start ≤ field.offset) (alignment : Nat) :
    List.Forall₂ (fun field other => field.offset ≤ other.offset)
      (exact pack start alignment (others.map Field.toMember)).fields others := by
  induction others generalizing start alignment with
  | nil => exact .nil
  | cons first rest ih =>
    -- The field before ends no later than in the other arrangement, so this one may start as early.
    obtain ⟨own, aligned⟩ := List.forall_mem_cons.mp arranged.aligned
    obtain ⟨next, ordered⟩ := List.isChain_cons.mp arranged.ordered
    have earlier : roundUp start (first.alignmentIn pack) ≤ first.offset :=
      roundUp_le own (above first rfl)
    refine .cons earlier (ih ⟨aligned, ordered⟩ (fun field within => ?_) _)
    exact Nat.le_trans (Nat.add_le_add_right earlier _) (next field within)

theorem exact_covers (positive : ∀ member ∈ members, 0 < member.alignmentIn pack)
    (start alignment : Nat) : ∀ field ∈ (exact pack start alignment members).fields,
      field.stop ≤ (exact pack start alignment members).stop := by
  induction members generalizing start alignment with
  | nil => nofun
  | cons member rest ih =>
    obtain ⟨-, others⟩ := List.forall_mem_cons.mp positive
    exact List.forall_mem_cons.mpr ⟨start_le_exact_stop others .., ih others _ _⟩

theorem exact_stop_le {start bound : Nat} (enough : start ≤ bound) (alignment : Nat)
    (covered : ∀ field ∈ (exact pack start alignment members).fields, field.stop ≤ bound) :
    (exact pack start alignment members).stop ≤ bound := by
  induction members generalizing start alignment with
  | nil => exact enough
  | cons member rest ih =>
    obtain ⟨first, others⟩ := List.forall_mem_cons.mp covered
    exact ih first _ others

end Extent

theorem Layout.exact_covers {pack : Option Nat} {members : List (Member Layout)}
    (positive : ∀ member ∈ members, 0 < member.alignmentIn pack) :
    ∀ field ∈ (exact pack members).fields, field.stop ≤ (exact pack members).size :=
  fun field within => Nat.le_trans (Extent.exact_covers positive 0 1 field within)
    (le_roundUp Extent.exact_alignment_pos _)

/-- The layout of some members keeps the rules for a structure in memory, with the largest of their
alignments for its own, and is the least that does: fields and size could not come earlier. No
alignment is zero or above eight, neither here nor in a nested layout at any depth. -/
theorem built_layout_is_least {steps : List (Step Layout)}
    (nested : ∀ member ∈ Step.members steps, member.element.Built) :
    let pack := Step.packing steps
    let members := Step.members steps
    (∀ member ∈ members, 0 < member.alignmentIn pack ∧ member.alignmentIn pack ≤ 8) ∧
    ∀ layout, Layout.ofSteps steps = .ok layout →
      layout.fields.map Field.toMember = members ∧ Arranged pack layout.fields ∧
      (1 :: members.map (Member.alignmentIn pack)).max? = some layout.alignment ∧
      (∀ others : List (Field Layout), others.map Field.toMember = members →
        Arranged pack others →
        List.Forall₂ (fun field other => field.offset ≤ other.offset) layout.fields others) ∧
      IsLeast {size | layout.alignment ∣ size ∧ ∀ field ∈ layout.fields, field.stop ≤ size}
        layout.size ∧
      ∀ deep, layout.Contains deep → 0 < deep.alignment ∧ deep.alignment ≤ 8 := by
  intro pack members
  have positive := alignmentIn_pos nested pack
  refine ⟨fun member within => Element.Built.alignmentIn_bounds (nested member within) pack,
    fun layout made => ?_⟩
  have built : layout.Built := .ofSteps nested made
  obtain ⟨-, rfl⟩ := (Layout.ofMembers_eq_ok positive).mp made
  refine ⟨Extent.exact_members .., Extent.exact_arranged positive .., ?_, ?_, ⟨⟨?_, ?_⟩, ?_⟩, ?_⟩
  · rw [List.max?_cons', Layout.exact, Extent.exact_alignment]
  · rintro others same arranged
    have fromStart : ∀ field ∈ others.head?, 0 ≤ field.offset := fun _ _ => Nat.zero_le _
    have least := Extent.exact_least arranged fromStart 1
    rwa [same] at least
  · exact roundUp_dvd ..
  · exact Layout.exact_covers positive
  · rintro size ⟨multiple, covered⟩
    exact roundUp_le multiple (Extent.exact_stop_le (Nat.zero_le _) 1 covered)
  · exact fun deep contains => (built.contains contains).alignment_bounds

/-- Packed to three bytes, which is no power of two. -/
def oddPack : Layout :=
  ⟨12, 3, [⟨⟨.scalar .char, 1⟩, 0⟩, ⟨⟨.scalar .longLong, 1⟩, 3⟩]⟩

theorem oddPack_built : oddPack.Built := by
  have scalars : ∀ member ∈ Step.members
      [.member (.scalar .char) 1, .pack 3, .member (.scalar .longLong) 1], member.element.Built := by
    simp [Step.members]
  exact .ofSteps scalars rfl

def oddSteps : List (Step Layout) :=
  [.member (.scalar .short) 1, .member (.struct oddPack) 2, .pack 5, .member (.scalar .int) 0]

def oddStruct : Layout :=
  ⟨28, 4, [⟨⟨.scalar .short, 1⟩, 0⟩, ⟨⟨.struct oddPack, 2⟩, 3⟩, ⟨⟨.scalar .int, 0⟩, 28⟩]⟩

theorem odd_packs_are_least :
    (∀ member ∈ Step.members oddSteps, member.element.Built) ∧
    Layout.ofSteps oddSteps = .ok oddStruct ∧ Arranged (some 5) oddStruct.fields ∧
    IsLeast {size | 4 ∣ size ∧ ∀ field ∈ oddStruct.fields, field.stop ≤ size} 28 ∧
    0 < oddPack.alignment ∧ oddPack.alignment ≤ 8 := by
  have nested : ∀ member ∈ Step.members oddSteps, member.element.Built := by
    simp [oddSteps, Step.members, oddPack_built]
  have made : Layout.ofSteps oddSteps = .ok oddStruct := rfl
  obtain ⟨-, arranged, -, -, least, depths⟩ := (built_layout_is_least nested).2 oddStruct made
  have within : oddStruct.Contains oddPack :=
    .nested (List.mem_cons_of_mem _ List.mem_cons_self) rfl (.self oddPack)
  exact ⟨nested, made, arranged, least, depths oddPack within⟩

end ForeignCall
