import ForeignCall.Proofs.Alignment

/-! Packings. A packing caps the alignments of members and does nothing else, so packings that leave
the same alignments give the same layout. A tighter cap lets every member move towards the start.
Roundings in general would not: a number rounded up to a multiple of two can come out above the same
number rounded up to a multiple of three. Among powers of two the smaller divides the larger, and so
the place that a member has under the wider cap suits the tighter one as well. -/
namespace ForeignCall

namespace Step

/-- The limits that the steps pack to, in order. -/
def limits (steps : List (Step α)) : List Nat :=
  steps.filterMap fun
    | member .. => none
    | pack limit => some limit

/-- The limit in force, if there is one: the last, where zero acts as one. -/
def cap (steps : List (Step α)) : Option Nat := (limits steps).getLast?.map (max · 1)

theorem packing_eq_getLast? (steps : List (Step α)) : packing steps = (limits steps).getLast? := by
  have later (earlier : Option Nat) : steps.foldl (fun earlier step => match step with
      | .member .. => earlier
      | .pack limit => some limit) earlier = (limits steps).getLast?.or earlier := by
    induction steps generalizing earlier with
    | nil => rfl
    | cons step rest ih =>
      cases step with
      | member element count => exact ih earlier
      | pack limit =>
        change _ = (limit :: limits rest).getLast?.or earlier
        simp only [List.foldl_cons, ih, List.getLast?_cons]
        cases (limits rest).getLast? <;> rfl
  exact (later none).trans (Option.or_none)

theorem cap_eq (steps : List (Step α)) : cap steps = (packing steps).map (max · 1) := by
  rw [cap, packing_eq_getLast?]

end Step

/-! Only the alignments that a packing leaves matter. -/

theorem capAlignment_map_max (pack : Option Nat) :
    capAlignment (pack.map (max · 1)) = capAlignment pack := by
  cases pack <;> simp [capAlignment, funext_iff]

theorem Member.alignmentIn_cap (steps : List (Step Layout)) (member : Member Layout) :
    member.alignmentIn (Step.cap steps) = member.alignmentIn (Step.packing steps) := by
  simp only [alignmentIn, Step.cap_eq, capAlignment_map_max]

section Congruence

variable {pack other : Option Nat} {members : List (Member Layout)}

theorem placeMembers_congr
    (same : ∀ member ∈ members, member.alignmentIn pack = member.alignmentIn other)
    (start alignment : Nat) :
    placeMembers pack start alignment members = placeMembers other start alignment members := by
  induction members generalizing start alignment with
  | nil => rfl
  | cons member rest ih =>
    obtain ⟨own, others⟩ := List.forall_mem_cons.mp same
    rw [Member.alignmentIn, Member.alignmentIn] at own
    simp only [placeMembers, own, ih others]

theorem Layout.ofMembers_congr
    (same : ∀ member ∈ members, member.alignmentIn pack = member.alignmentIn other) :
    ofMembers pack members = ofMembers other members := by
  rw [ofMembers, ofMembers, placeMembers_congr same]

end Congruence

theorem Layout.ofSteps_eq_cap (steps : List (Step Layout)) :
    ofSteps steps = ofMembers (Step.cap steps) (Step.members steps) :=
  ofMembers_congr fun member _ => (member.alignmentIn_cap steps).symm

theorem capAlignment_of_large {pack : Option Nat} {alignment : Nat} (small : alignment ≤ 8)
    (large : ∀ limit ∈ pack, 8 ≤ limit) : capAlignment pack alignment = alignment := by
  cases pack with
  | none => rfl
  | some limit =>
    have above : 8 ≤ limit := large limit rfl
    simp only [capAlignment]
    omega

/-! Members side by side. -/

def Member.extent (member : Member Layout) : Nat := member.element.size * member.count

def totalExtent (members : List (Member Layout)) : Nat := (members.map Member.extent).sum

@[simp] theorem totalExtent_cons (member : Member Layout) (rest : List (Member Layout)) :
    totalExtent (member :: rest) = member.extent + totalExtent rest := by
  simp [totalExtent]

section SideBySide

variable {pack : Option Nat} {members : List (Member Layout)}

/-- Each member starts where the one before ends. -/
def sideBySide (start : Nat) (members : List (Member Layout)) : List (Field Layout) :=
  members.mapIdx fun i member => ⟨member, start + totalExtent (members.take i)⟩

theorem sideBySide_cons (start : Nat) (member : Member Layout) (rest : List (Member Layout)) :
    sideBySide start (member :: rest) =
      ⟨member, start⟩ :: sideBySide (start + member.extent) rest := by
  simp [sideBySide, List.mapIdx_cons, totalExtent, Nat.add_assoc]

theorem Extent.exact_of_unit (unit : ∀ member ∈ members, member.alignmentIn pack = 1)
    (start : Nat) : exact pack start 1 members =
      ⟨sideBySide start members, start + totalExtent members, 1⟩ := by
  induction members generalizing start with
  | nil => rfl
  | cons member rest ih =>
    obtain ⟨own, others⟩ := List.forall_mem_cons.mp unit
    have placed : member.place pack start = ⟨member, start⟩ := by
      rw [Member.place, own, roundUp_one]
    have stop : Field.stop ⟨member, start⟩ = start + member.extent := rfl
    simp only [exact, own, placed, stop, Nat.max_self, ih others, sideBySide_cons,
      totalExtent_cons, Nat.add_assoc]

theorem Layout.ofMembers_of_unit (unit : ∀ member ∈ members, member.alignmentIn pack = 1)
    {layout : Layout} : ofMembers pack members = .ok layout ↔
      totalExtent members + 1 < sizeBound ∧
        layout = ⟨totalExtent members, 1, sideBySide 0 members⟩ := by
  have positive : ∀ member ∈ members, 0 < member.alignmentIn pack := by
    intro member within
    simp [unit member within]
  simp only [ofMembers_eq_ok positive, exact, Extent.exact_of_unit unit, roundUp_one, Nat.zero_add]

end SideBySide

/-! Tighter caps. -/

theorem roundUp_le_roundUp {start later narrow wide : Nat} (dvd : narrow ∣ wide)
    (positive : 0 < wide) (le : start ≤ later) : roundUp start narrow ≤ roundUp later wide := by
  apply roundUp_le (dvd.trans (roundUp_dvd later wide))
  exact le.trans (le_roundUp positive later)

/-- The same members, none of them later, and no larger in the whole. -/
structure Extent.Within (narrow wide : Extent) : Prop where
  fields : List.Forall₂ (fun field other => field.toMember = other.toMember ∧
    field.offset ≤ other.offset) narrow.fields wide.fields
  stop : narrow.stop ≤ wide.stop
  alignment : narrow.alignment ≤ wide.alignment

theorem Extent.exact_within {tight wide : Option Nat} {members : List (Member Layout)}
    (divides : ∀ member ∈ members, member.alignmentIn tight ∣ member.alignmentIn wide)
    (positive : ∀ member ∈ members, 0 < member.alignmentIn wide) {start later least most : Nat}
    (earlier : start ≤ later) (smaller : least ≤ most) :
    (exact tight start least members).Within (exact wide later most members) := by
  induction members generalizing start later least most with
  | nil => exact ⟨.nil, earlier, smaller⟩
  | cons member rest ih =>
    obtain ⟨dvd, others⟩ := List.forall_mem_cons.mp divides
    obtain ⟨own, behind⟩ := List.forall_mem_cons.mp positive
    have offset : (member.place tight start).offset ≤ (member.place wide later).offset :=
      roundUp_le_roundUp dvd own earlier
    have stop : (member.place tight start).stop ≤ (member.place wide later).stop :=
      Nat.add_le_add_right offset _
    have less := Nat.le_of_dvd own dvd
    have alignment : max least (member.alignmentIn tight) ≤ max most (member.alignmentIn wide) := by
      omega
    have placed := ih others behind stop alignment
    exact ⟨.cons ⟨rfl, offset⟩ placed.fields, placed.stop, placed.alignment⟩

/-- The first cap is no wider than the second. Without a limit, a cap is the widest. -/
def Tighter (tight wide : Option Nat) : Prop := ∀ limit ∈ wide, ∃ other ∈ tight, other ≤ limit

section Tighter

variable {tight wide : Option Nat} {alignment : Nat}

theorem Tighter.capAlignment_le (tighter : Tighter tight wide) (alignment : Nat) :
    capAlignment tight alignment ≤ capAlignment wide alignment := by
  cases wide with
  | none =>
    cases tight with
    | none => exact le_rfl
    | some limit => exact Nat.min_le_left _ _
  | some limit =>
    obtain ⟨other, rfl, le⟩ := tighter limit rfl
    simp only [capAlignment]
    omega

theorem Tighter.capAlignment_dvd (tighter : Tighter tight wide)
    (regular : ∀ limit ∈ tight, Regular limit) (wider : ∀ limit ∈ wide, Regular limit)
    (binary : alignment ∣ 8) : capAlignment tight alignment ∣ capAlignment wide alignment := by
  have first := (ForeignCall.capAlignment_dvd regular binary).trans binary
  have second := (ForeignCall.capAlignment_dvd wider binary).trans binary
  exact dvd_of_le first second (tighter.capAlignment_le alignment)

/-- What fits under the wider cap fits under the tighter one, in no more space. -/
theorem Layout.ofMembers_tighter (tighter : Tighter tight wide)
    (regular : ∀ limit ∈ tight, Regular limit) (wider : ∀ limit ∈ wide, Regular limit)
    {members : List (Member Layout)} (binary : ∀ member ∈ members, member.element.alignment ∣ 8)
    {layout : Layout} (made : ofMembers wide members = .ok layout) :
    ∃ other, ofMembers tight members = .ok other ∧
      List.Forall₂ (fun field other => field.toMember = other.toMember ∧
        field.offset ≤ other.offset) other.fields layout.fields ∧
      other.alignment ≤ layout.alignment ∧ other.size ≤ layout.size := by
  have capped {pack : Option Nat} (regular : ∀ limit ∈ pack, Regular limit) :
      ∀ member ∈ members, member.alignmentIn pack ∣ 8 := fun member within =>
    (ForeignCall.capAlignment_dvd regular (binary member within)).trans (binary member within)
  have positive {pack : Option Nat} (regular : ∀ limit ∈ pack, Regular limit) :
      ∀ member ∈ members, 0 < member.alignmentIn pack := fun member within =>
    Nat.pos_of_dvd_of_pos (capped regular member within) (by decide)
  have divides : ∀ member ∈ members, member.alignmentIn tight ∣ member.alignmentIn wide :=
    fun member within => tighter.capAlignment_dvd regular wider (binary member within)
  obtain ⟨fits, rfl⟩ := (ofMembers_eq_ok (positive wider)).mp made
  have placed := Extent.exact_within divides (positive wider) (Nat.le_refl 0) (Nat.le_refl 1)
  have alignment := placed.alignment
  have stop := placed.stop
  refine ⟨_, (ofMembers_eq_ok (positive regular)).mpr ⟨by omega, rfl⟩, placed.fields,
    alignment, ?_⟩
  have whole := dvd_of_le (exact_alignment_dvd (capped regular))
    (exact_alignment_dvd (capped wider)) alignment
  exact roundUp_le_roundUp whole Extent.exact_alignment_pos stop

end Tighter

/-! Packings by powers of two. -/

/-- The layout of a declaration that keeps the rule, as do the declarations nested in it. -/
def Layout.Under (rule : List (Step Declaration) → Prop) (layout : Layout) : Prop :=
  ∃ declaration : Declaration, declaration.Everywhere rule ∧ declaration.layout = .ok layout

/-- Packed by powers of two at every level, if at all. Zero acts as one. -/
structure Step.Binary (steps : List (Step Layout)) : Prop where
  own : Limits (fun limit => limit = 0 ∨ limit.isPowerOfTwo) steps
  nested : ∀ member ∈ members steps, ∀ inner, member.element = .struct inner →
    inner.Under (Limits fun limit => limit = 0 ∨ limit.isPowerOfTwo)

namespace Step.Binary

variable {steps : List (Step Layout)}

theorem built (binary : Binary steps) : ∀ member ∈ members steps, member.element.Built := by
  intro member within inner element
  obtain ⟨declaration, -, made⟩ := binary.nested member within inner element
  exact declaration.layout_built made

theorem regular (binary : Binary steps) : ∀ limit ∈ cap steps, Regular limit := by
  intro limit packed
  rw [cap_eq] at packed
  obtain ⟨own, inForce, rfl⟩ := Option.mem_map.mp packed
  rcases binary.own own inForce with rfl | power
  · exact .inr (.inl ⟨0, rfl⟩)
  · rw [Nat.max_eq_left (Nat.pos_of_isPowerOfTwo power)]
    exact .inr (.inl power)

theorem element_placed (binary : Binary steps) : ∀ member ∈ members steps,
    member.element.alignment ∣ 8 ∧ member.element.alignment ∣ member.element.size := by
  intro member within
  cases element : member.element with
  | scalar type => exact ⟨type.size_dvd, Nat.dvd_refl _⟩
  | struct inner =>
    obtain ⟨declaration, kept, made⟩ := binary.nested member within inner element
    have regular : declaration.Everywhere (Limits Regular) :=
      kept.mono fun steps limits limit within => (limits limit within).imp_right .inl
    have placed := regular.placed made
    exact ⟨placed.binary, placed.whole⟩

end Step.Binary

/-- A packing caps the alignments of the members and does nothing else. The members in order and the
last limit decide about the layout, or the fault. A limit of eight or more is as good as none. A limit
of one leaves no padding: each member starts where those before it end. With powers of two at all
levels, a tighter limit does no harm: what could be laid out still can, and neither any offset, nor
the alignment, nor the size is larger than before. -/
theorem packing_caps_alignments {steps others : List (Step Layout)}
    (same : Step.members others = Step.members steps) :
    (Step.cap others = Step.cap steps → Layout.ofSteps others = Layout.ofSteps steps) ∧
    ((∀ member ∈ Step.members steps, member.element.Built) →
      ((∀ limit ∈ Step.cap steps, 8 ≤ limit) → Step.cap others = none →
        Layout.ofSteps steps = Layout.ofSteps others) ∧
      (Step.cap steps = some 1 → ∀ layout, Layout.ofSteps steps = .ok layout ↔
        totalExtent (Step.members steps) + 1 < 2 ^ 64 ∧
        layout = ⟨totalExtent (Step.members steps), 1, (Step.members steps).mapIdx
          fun i member => ⟨member, totalExtent ((Step.members steps).take i)⟩⟩)) ∧
    (Step.Binary steps → Step.Binary others → Tighter (Step.cap steps) (Step.cap others) →
      ∀ wide, Layout.ofSteps others = .ok wide → ∃ tight, Layout.ofSteps steps = .ok tight ∧
        List.Forall₂ (fun field other => field.toMember = other.toMember ∧
          field.offset ≤ other.offset) tight.fields wide.fields ∧
        tight.alignment ≤ wide.alignment ∧ tight.size ≤ wide.size) := by
  refine ⟨fun caps => ?_, fun nested => ⟨fun large loose => ?_, fun unit layout => ?_⟩, ?_⟩
  · rw [Layout.ofSteps_eq_cap, Layout.ofSteps_eq_cap, caps, same]
  · rw [Layout.ofSteps_eq_cap, Layout.ofSteps_eq_cap, loose, same]
    refine Layout.ofMembers_congr fun member within => ?_
    apply capAlignment_of_large _ large
    exact (Element.Built.alignmentIn_bounds (nested member within) none).2
  · have single : ∀ member ∈ Step.members steps, member.alignmentIn (some 1) = 1 := by
      intro member within
      exact Nat.min_eq_right (Element.Built.alignmentIn_bounds (nested member within) none).1
    rw [Layout.ofSteps_eq_cap, unit, Layout.ofMembers_of_unit single]
    simp [sideBySide]
  · intro narrow broad tighter wide made
    rw [Layout.ofSteps_eq_cap, same] at made
    rw [Layout.ofSteps_eq_cap]
    exact Layout.ofMembers_tighter tighter narrow.regular broad.regular
      (fun member within => (narrow.element_placed member within).1) made

/-- A limit of two lets a structure that is packed to three slip back by a byte. -/
example : (Layout.ofSteps [.member (.scalar .char) 3, .member (.struct oddPack) 1]).map Layout.size =
      .ok 15 ∧
    (Layout.ofSteps [.member (.scalar .char) 3, .pack 2, .member (.struct oddPack) 1]).map
      Layout.size = .ok 16 :=
  ⟨rfl, rfl⟩

def looseSteps : List (Step Layout) :=
  [.member (.scalar .char) 3, .member (.struct paddedPair) 1, .member (.scalar .int) 1]

theorem paddedPair_under : paddedPair.Under
    (Step.Limits fun limit => limit = 0 ∨ limit.isPowerOfTwo) :=
  ⟨⟨[.member (.scalar .longLong) 1, .member (.scalar .char) 1]⟩,
    .intro nofun (by simp [Step.members]), rfl⟩

theorem looseSteps_binary : Step.Binary looseSteps :=
  ⟨nofun, by simp [looseSteps, Step.members, paddedPair_under]⟩

theorem looseSteps_binary_of_two : Step.Binary (.pack 2 :: looseSteps) := by
  refine ⟨?_, looseSteps_binary.nested⟩
  rintro _ ⟨⟩
  exact .inr ⟨1, rfl⟩

theorem loose_steps_are_packed :
    Layout.ofSteps (.pack 5 :: looseSteps ++ [.pack 0]) = Layout.ofSteps (.pack 1 :: looseSteps) ∧
    Layout.ofSteps (.pack 12 :: looseSteps) = Layout.ofSteps looseSteps ∧
    Layout.ofSteps (.pack 1 :: looseSteps) = .ok ⟨23, 1, [⟨⟨.scalar .char, 3⟩, 0⟩,
      ⟨⟨.struct paddedPair, 1⟩, 3⟩, ⟨⟨.scalar .int, 1⟩, 19⟩]⟩ ∧
    Step.Binary looseSteps ∧ Step.Binary (.pack 2 :: looseSteps) ∧
    (Layout.ofSteps looseSteps).map Layout.size = .ok 32 ∧
    ∃ tight, Layout.ofSteps (.pack 2 :: looseSteps) = .ok tight ∧ tight.alignment ≤ 8 ∧
      tight.size ≤ 32 := by
  have moved : Step.members (.pack 5 :: looseSteps ++ [.pack 0]) =
      Step.members (.pack 1 :: looseSteps) := rfl
  have unpacked (limit : Nat) :
      Step.members looseSteps = Step.members (.pack limit :: looseSteps) := rfl
  have large : ∀ limit ∈ Step.cap (.pack 12 :: looseSteps), 8 ≤ limit := by
    rintro _ ⟨⟩
    decide
  have tighter : Tighter (Step.cap (.pack 2 :: looseSteps)) (Step.cap looseSteps) := nofun
  have last := (packing_caps_alignments moved).1 rfl
  have none := ((packing_caps_alignments (unpacked 12)).2.1 looseSteps_binary.built).1 large rfl
  have unit := ((packing_caps_alignments (unpacked 1)).2.1 looseSteps_binary.built).2 rfl
  obtain ⟨tight, made, -, alignment, size⟩ := (packing_caps_alignments (unpacked 2)).2.2
    looseSteps_binary_of_two looseSteps_binary tighter _ rfl
  exact ⟨last, none, (unit _).mpr ⟨by decide, rfl⟩, looseSteps_binary, looseSteps_binary_of_two,
    rfl, tight, made, alignment, size⟩

end ForeignCall
