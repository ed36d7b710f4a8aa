import ForeignCall.Layout.Placement

/-! Declarations of structures, as a list of steps that add a member or pack the whole structure.
A nested structure is a declaration of its own, and a declaration has a layout unless one of the
sizes on the way leaves 64 bits. -/
namespace ForeignCall

inductive Step (α : Type) where
  | member (element : Element α) (count : Nat)
  | pack (limit : Nat)

namespace Step

def members (steps : List (Step α)) : List (Member α) :=
  steps.filterMap fun
    | member element count => some ⟨element, count⟩
    | pack _ => none

/-- Packing applies to the whole structure wherever it stands; the last limit counts. -/
def packing (steps : List (Step α)) : Option Nat :=
  steps.foldl (fun earlier step => match step with
    | member .. => earlier
    | pack limit => some limit) none

end Step

/-- The layout that steps over nested layouts describe. -/
def Layout.ofSteps (steps : List (Step Layout)) : Except Fault Layout :=
  Layout.ofMembers (Step.packing steps) (Step.members steps)

structure Declaration where
  steps : List (Step Declaration)

mutual
def Declaration.layout : Declaration → Except Fault Layout
  | ⟨steps⟩ => do Layout.ofSteps (← resolveSteps steps)
def resolveSteps : List (Step Declaration) → Except Fault (List (Step Layout))
  | [] => return []
  | .member (.scalar type) count :: rest => return .member (.scalar type) count :: (← resolveSteps rest)
  | .member (.struct inner) count :: rest => do
    let layout ← inner.layout
    return .member (.struct layout) count :: (← resolveSteps rest)
  | .pack limit :: rest => return .pack limit :: (← resolveSteps rest)
end

end ForeignCall
