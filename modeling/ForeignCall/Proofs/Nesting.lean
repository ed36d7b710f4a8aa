import Mathlib.Data.List.Forall2
import ForeignCall.Proofs.Built

/-! Declarations and their layouts, side by side. A layout does not tell how it was packed, so a rule
about the packings of all nested structures is a rule about declarations. Such a rule comes with an
induction that follows a declaration and its layout at once: the members of the one become the
members of the other, with the same counts and in the same order. -/
namespace ForeignCall

/-- A rule that the steps of a declaration keep, and those of the declarations nested in it. -/
inductive Declaration.Everywhere (rule : List (Step Declaration) → Prop) : Declaration → Prop where
  | intro {declaration : Declaration} :
      rule declaration.steps →
      (∀ source ∈ Step.members declaration.steps, ∀ inner, source.element = .struct inner →
        Everywhere rule inner) → Everywhere rule declaration

def Element.Everywhere (rule : List (Step Declaration) → Prop) (element : Element Declaration) : Prop :=
  ∀ inner, element = .struct inner → inner.Everywhere rule

@[simp] theorem Element.scalar_everywhere (rule : List (Step Declaration) → Prop) (type : Scalar) :
    (scalar type).Everywhere rule :=
  nofun

@[simp] theorem Element.struct_everywhere {rule : List (Step Declaration) → Prop}
    {inner : Declaration} : (struct inner).Everywhere rule ↔ inner.Everywhere rule :=
  ⟨fun kept => kept inner rfl, fun kept _ same => struct.inj same ▸ kept⟩

/-- Packed, if at all, to a limit that is allowed. Of several limits the last is in force. -/
def Step.Limits (allowed : Nat → Prop) (steps : List (Step α)) : Prop :=
  ∀ limit ∈ Step.packing steps, allowed limit

theorem Declaration.Everywhere.mono {rule weaker : List (Step Declaration) → Prop}
    (implies : ∀ steps, rule steps → weaker steps) {declaration : Declaration}
    (kept : declaration.Everywhere rule) : declaration.Everywhere weaker := by
  induction kept with
  | intro own _ ih => exact .intro (implies _ own) ih

/-- The same scalar, or structures that are related. -/
inductive Element.Follows (related : Declaration → Layout → Prop) :
    Element Declaration → Element Layout → Prop where
  | scalar (type : Scalar) : Follows related (.scalar type) (.scalar type)
  | struct {inner : Declaration} {layout : Layout} :
      related inner layout → Follows related (.struct inner) (.struct layout)

theorem Element.Follows.related {motive : Element Declaration → Element Layout → Prop}
    (scalar : ∀ type, motive (.scalar type) (.scalar type)) {source : Element Declaration}
    {element : Element Layout}
    (follows : source.Follows (fun inner layout => motive (.struct inner) (.struct layout)) element) :
    motive source element := by
  cases follows with
  | scalar type => exact scalar type
  | struct holds => exact holds

structure Member.Follows (related : Declaration → Layout → Prop) (source : Member Declaration)
    (member : Member Layout) : Prop where
  count : member.count = source.count
  element : source.element.Follows related member.element

theorem resolveSteps_packing {sources : List (Step Declaration)} {steps : List (Step Layout)}
    (resolved : resolveSteps sources = .ok steps) : Step.packing steps = Step.packing sources := by
  unfold Step.packing
  generalize (none : Option Nat) = earlier
  induction sources generalizing steps earlier with
  | nil =>
    cases resolved
    rfl
  | cons source rest ih =>
    cases source with
    | pack limit =>
      simp only [resolveSteps, bind_eq_ok, pure, Except.pure, Except.ok.injEq] at resolved
      obtain ⟨later, tail, rfl⟩ := resolved
      exact ih tail _
    | member element count =>
      cases element with
      | scalar type =>
        simp only [resolveSteps, bind_eq_ok, pure, Except.pure, Except.ok.injEq] at resolved
        obtain ⟨later, tail, rfl⟩ := resolved
        exact ih tail _
      | struct inner =>
        simp only [resolveSteps, bind_eq_ok, pure, Except.pure, Except.ok.injEq] at resolved
        obtain ⟨layout, -, later, tail, rfl⟩ := resolved
        exact ih tail _

theorem resolveSteps_members {sources : List (Step Declaration)} {steps : List (Step Layout)}
    (resolved : resolveSteps sources = .ok steps) :
    List.Forall₂ (Member.Follows fun inner layout => inner.layout = .ok layout)
      (Step.members sources) (Step.members steps) := by
  induction sources generalizing steps with
  | nil =>
    cases resolved
    exact .nil
  | cons source rest ih =>
    cases source with
    | pack limit =>
      simp only [resolveSteps, bind_eq_ok, pure, Except.pure, Except.ok.injEq] at resolved
      obtain ⟨later, tail, rfl⟩ := resolved
      have follow := ih tail
      exact follow
    | member element count =>
      cases element with
      | scalar type =>
        simp only [resolveSteps, bind_eq_ok, pure, Except.pure, Except.ok.injEq] at resolved
        obtain ⟨later, tail, rfl⟩ := resolved
        exact .cons ⟨rfl, .scalar type⟩ (ih tail)
      | struct inner =>
        simp only [resolveSteps, bind_eq_ok, pure, Except.pure, Except.ok.injEq] at resolved
        obtain ⟨layout, made, later, tail, rfl⟩ := resolved
        exact .cons ⟨rfl, .struct made⟩ (ih tail)

theorem exists_of_forall₂ {R : α → β → Prop} {xs : List α} {ys : List β}
    (related : List.Forall₂ R xs ys) : ∀ y ∈ ys, ∃ x ∈ xs, R x y := by
  induction related with
  | nil => nofun
  | cons head _ ih =>
    refine List.forall_mem_cons.mpr ⟨⟨_, List.mem_cons_self, head⟩, fun y within => ?_⟩
    obtain ⟨x, member, holds⟩ := ih y within
    exact ⟨x, List.mem_cons_of_mem _ member, holds⟩

/-- Whatever holds of all sources and whatever relates them to their members hold together. -/
theorem follows_of_sources {related stronger : Declaration → Layout → Prop}
    {sources : List (Member Declaration)} {members : List (Member Layout)}
    (follow : List.Forall₂ (Member.Follows related) sources members)
    (implies : ∀ source ∈ sources, ∀ inner, source.element = .struct inner →
      ∀ layout, related inner layout → stronger inner layout) :
    List.Forall₂ (Member.Follows stronger) sources members := by
  refine ((List.forall₂_and_left _ _).mpr ⟨implies, follow⟩).imp ?_
  rintro ⟨source, count⟩ ⟨member, same⟩ ⟨own, counts, element⟩
  cases element with
  | scalar type => exact ⟨counts, .scalar type⟩
  | struct holds => exact ⟨counts, .struct (own _ rfl _ holds)⟩

/-- Induction over a declaration and the layouts in it. -/
@[elab_as_elim] theorem Declaration.Everywhere.induct {rule : List (Step Declaration) → Prop}
    {motive : Declaration → Layout → Prop}
    (step : ∀ (declaration : Declaration) (members : List (Member Layout)),
      rule declaration.steps →
      List.Forall₂ (Member.Follows motive) (Step.members declaration.steps) members →
      (∀ member ∈ members, member.element.Built) →
      motive declaration (Layout.exact (Step.packing declaration.steps) members))
    {declaration : Declaration} {layout : Layout} (kept : declaration.Everywhere rule)
    (made : declaration.layout = .ok layout) : motive declaration layout := by
  induction kept generalizing layout with
  | @intro declaration own _ ih =>
    obtain ⟨sources⟩ := declaration
    rw [Declaration.layout] at made
    obtain ⟨steps, resolved, made⟩ := bind_eq_ok.mp made
    have built := resolveSteps_built sources resolved
    obtain ⟨-, rfl⟩ := (Layout.ofMembers_eq_ok_of_built built).mp made
    rw [resolveSteps_packing resolved]
    refine step ⟨sources⟩ _ own (follows_of_sources (resolveSteps_members resolved) ?_) built
    exact fun source within inner element layout => ih source within inner element

end ForeignCall
