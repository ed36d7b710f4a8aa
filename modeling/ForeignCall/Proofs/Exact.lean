import ForeignCall.Layout.Declaration

/-! Layouts in exact arithmetic. `Layout.exact` places members with numbers that have no bound. A
layout that is made with checked numbers is that one, and it is made whenever the end of the last
member and the alignment of the whole together stay below the bound: no check on the way is
stricter. -/
namespace ForeignCall

/-! Rounding. -/

theorem roundUp_dvd (offset alignment : Nat) : alignment ∣ roundUp offset alignment :=
  Nat.dvd_mul_left ..

theorem le_roundUp {alignment : Nat} (positive : 0 < alignment) (offset : Nat) :
    offset ≤ roundUp offset alignment := by
  have split := Nat.div_add_mod' (offset + alignment - 1) alignment
  have short := Nat.mod_lt (offset + alignment - 1) positive
  simp only [roundUp]
  omega

theorem roundUp_lt {alignment : Nat} (positive : 0 < alignment) (offset : Nat) :
    roundUp offset alignment < offset + alignment := by
  have split := Nat.div_mul_le_self (offset + alignment - 1) alignment
  simp only [roundUp]
  omega

/-- No multiple of the alignment lies between a number and the number rounded up. -/
theorem roundUp_le {offset alignment bound : Nat} (multiple : alignment ∣ bound)
    (above : offset ≤ bound) : roundUp offset alignment ≤ bound := by
  obtain ⟨steps, rfl⟩ := multiple
  rw [roundUp, Nat.mul_comm]
  apply Nat.mul_le_mul_left
  rcases Nat.eq_zero_or_pos alignment with rfl | positive
  · rw [Nat.div_zero]
    exact Nat.zero_le _
  · apply Nat.le_of_lt_succ
    apply (Nat.div_lt_iff_lt_mul positive).mpr
    rw [Nat.succ_mul, Nat.mul_comm]
    omega

@[simp] theorem roundUp_zero (alignment : Nat) : roundUp 0 alignment = 0 :=
  Nat.le_zero.mp (roundUp_le (Nat.dvd_zero _) (Nat.le_refl 0))

theorem roundUp_of_dvd {offset alignment : Nat} (multiple : alignment ∣ offset) :
    roundUp offset alignment = offset := by
  rcases Nat.eq_zero_or_pos alignment with rfl | positive
  · rw [Nat.eq_zero_of_zero_dvd multiple, roundUp_zero]
  · exact Nat.le_antisymm (roundUp_le multiple (Nat.le_refl offset)) (le_roundUp positive offset)

theorem roundUp_one (offset : Nat) : roundUp offset 1 = offset :=
  roundUp_of_dvd (Nat.one_dvd offset)

/-! Checked steps. -/

theorem bind_eq_ok {x : Except ε α} {f : α → Except ε β} {b : β} :
    (x >>= f) = .ok b ↔ ∃ a, x = .ok a ∧ f a = .ok b := by
  cases x <;> simp [bind, Except.bind]

theorem bind_eq_error {x : Except ε α} {f : α → Except ε β} {e : ε} :
    (x >>= f) = .error e ↔ x = .error e ∨ ∃ a, x = .ok a ∧ f a = .error e := by
  cases x <;> simp [bind, Except.bind]

theorem checkedAdd_eq_ok {a b c : Nat} :
    checkedAdd a b = .ok c ↔ a + b < sizeBound ∧ a + b = c := by
  unfold checkedAdd
  split <;> simp [*]

theorem checkedMul_eq_ok {a b c : Nat} :
    checkedMul a b = .ok c ↔ a * b < sizeBound ∧ a * b = c := by
  unfold checkedMul
  split <;> simp [*]

theorem checkedRoundUp_eq_ok {offset alignment place : Nat} :
    checkedRoundUp offset alignment = .ok place ↔
      offset + alignment < sizeBound ∧ roundUp offset alignment = place := by
  simp [checkedRoundUp, bind_eq_ok, checkedAdd_eq_ok, pure, Except.pure]

def Fault.IsOverflow (fault : Fault) : Prop := fault = .sumOverflow ∨ fault = .productOverflow

theorem Fault.IsOverflow.message {fault : Fault} (overflow : fault.IsOverflow) :
    fault.message = "attempt to add with overflow" ∨
      fault.message = "attempt to multiply with overflow" := by
  rcases overflow with rfl | rfl
  · exact .inl rfl
  · exact .inr rfl

theorem checkedAdd_error {a b : Nat} {fault : Fault} (failed : checkedAdd a b = .error fault) :
    fault.IsOverflow := by
  unfold checkedAdd at failed
  split at failed <;> cases failed
  exact .inl rfl

theorem checkedMul_error {a b : Nat} {fault : Fault} (failed : checkedMul a b = .error fault) :
    fault.IsOverflow := by
  unfold checkedMul at failed
  split at failed <;> cases failed
  exact .inr rfl

theorem checkedRoundUp_error {offset alignment : Nat} {fault : Fault}
    (failed : checkedRoundUp offset alignment = .error fault) : fault.IsOverflow := by
  rcases bind_eq_error.mp failed with failed | ⟨_, _, failed⟩
  · exact checkedAdd_error failed
  · cases failed

/-! Members, and where they go. -/

/-- One past the last byte. -/
def Field.stop (field : Field Layout) : Nat :=
  field.offset + field.element.size * field.count

namespace Member

def alignmentIn (pack : Option Nat) (member : Member Layout) : Nat :=
  capAlignment pack member.element.alignment

/-- The member at the first place from `start` on that suits its alignment. -/
def place (pack : Option Nat) (start : Nat) (member : Member Layout) : Field Layout :=
  ⟨member, roundUp start (member.alignmentIn pack)⟩

theorem start_le_place_stop {pack : Option Nat} {member : Member Layout}
    (positive : 0 < member.alignmentIn pack) (start : Nat) :
    start ≤ (member.place pack start).stop :=
  Nat.le_trans (le_roundUp positive start) (Nat.le_add_right ..)

end Member

/-- Members placed one after the other, with numbers that have no bound. -/
def Extent.exact (pack : Option Nat) (start alignment : Nat) : List (Member Layout) → Extent
  | [] => ⟨[], start, alignment⟩
  | member :: rest =>
    let field := member.place pack start
    let placed := exact pack field.stop (max alignment (member.alignmentIn pack)) rest
    { placed with fields := field :: placed.fields }

/-- The layout of some members, with numbers that have no bound. -/
def Layout.exact (pack : Option Nat) (members : List (Member Layout)) : Layout :=
  let placed := Extent.exact pack 0 1 members
  ⟨roundUp placed.stop placed.alignment, placed.alignment, placed.fields⟩

variable {pack : Option Nat} {members : List (Member Layout)}

namespace Extent

theorem exact_alignment (start alignment : Nat) :
    (exact pack start alignment members).alignment =
      (members.map (Member.alignmentIn pack)).foldl max alignment := by
  induction members generalizing start alignment with
  | nil => rfl
  | cons member rest ih => exact ih ..

theorem exact_members (start alignment : Nat) :
    (exact pack start alignment members).fields.map Field.toMember = members := by
  induction members generalizing start alignment with
  | nil => rfl
  | cons member rest ih => exact congrArg (member :: ·) (ih ..)

theorem le_exact_alignment (start alignment : Nat) :
    alignment ≤ (exact pack start alignment members).alignment := by
  induction members generalizing start alignment with
  | nil => exact Nat.le_refl _
  | cons member rest ih => exact Nat.le_trans (Nat.le_max_left ..) (ih ..)

theorem exact_alignment_pos : 0 < (exact pack 0 1 members).alignment :=
  le_exact_alignment 0 1

theorem start_le_exact_stop (positive : ∀ member ∈ members, 0 < member.alignmentIn pack)
    (start alignment : Nat) : start ≤ (exact pack start alignment members).stop := by
  induction members generalizing start alignment with
  | nil => exact Nat.le_refl _
  | cons member rest ih =>
    obtain ⟨own, others⟩ := List.forall_mem_cons.mp positive
    exact Nat.le_trans (Member.start_le_place_stop own start) (ih others ..)

end Extent

theorem placeMembers_cons_eq_ok {start alignment : Nat} {member : Member Layout} {placed : Extent} :
    placeMembers pack start alignment (member :: members) = .ok placed ↔
      start + member.alignmentIn pack < sizeBound ∧
      member.element.size * member.count < sizeBound ∧
      (member.place pack start).stop < sizeBound ∧
      ∃ later, placeMembers pack (member.place pack start).stop
          (max alignment (member.alignmentIn pack)) members = .ok later ∧
        { later with fields := member.place pack start :: later.fields } = placed := by
  simp only [placeMembers, bind_eq_ok, checkedRoundUp_eq_ok, checkedMul_eq_ok, checkedAdd_eq_ok,
    pure, Except.pure, Except.ok.injEq]
  constructor
  · rintro ⟨_, ⟨rounded, rfl⟩, _, ⟨product, rfl⟩, _, ⟨sum, rfl⟩, later, rest, whole⟩
    exact ⟨rounded, product, sum, later, rest, whole⟩
  · rintro ⟨rounded, product, sum, later, rest, whole⟩
    exact ⟨_, ⟨rounded, rfl⟩, _, ⟨product, rfl⟩, _, ⟨sum, rfl⟩, later, rest, whole⟩

theorem placeMembers_eq_exact {start alignment : Nat} {placed : Extent}
    (made : placeMembers pack start alignment members = .ok placed) :
    placed = Extent.exact pack start alignment members := by
  induction members generalizing start alignment placed with
  | nil => exact (Except.ok.inj made).symm
  | cons member rest ih =>
    obtain ⟨-, -, -, later, rest, rfl⟩ := placeMembers_cons_eq_ok.mp made
    rw [ih rest]
    rfl

theorem placeMembers_of_fits (positive : ∀ member ∈ members, 0 < member.alignmentIn pack)
    {start alignment : Nat} (fits : (Extent.exact pack start alignment members).stop +
      (Extent.exact pack start alignment members).alignment < sizeBound) :
    placeMembers pack start alignment members =
      .ok (Extent.exact pack start alignment members) := by
  induction members generalizing start alignment with
  | nil => rfl
  | cons member rest ih =>
    obtain ⟨own, others⟩ := List.forall_mem_cons.mp positive
    -- What is checked here is at most the end, or the end and the alignment together.
    have before := Member.start_le_place_stop own start
    have behind := Extent.start_le_exact_stop others (member.place pack start).stop
      (max alignment (member.alignmentIn pack))
    have wider : max alignment (member.alignmentIn pack) ≤
        (Extent.exact pack start alignment (member :: rest)).alignment :=
      Extent.le_exact_alignment ..
    have widest := Nat.le_max_right alignment (member.alignmentIn pack)
    have extent : member.element.size * member.count ≤ (member.place pack start).stop :=
      Nat.le_add_left ..
    simp only [Extent.exact] at fits wider
    exact placeMembers_cons_eq_ok.mpr ⟨by omega, by omega, by omega, _, ih others fits, rfl⟩

theorem placeMembers_error {start alignment : Nat} {fault : Fault}
    (failed : placeMembers pack start alignment members = .error fault) : fault.IsOverflow := by
  induction members generalizing start alignment with
  | nil => cases failed
  | cons member rest ih =>
    rcases bind_eq_error.mp failed with failed | ⟨_, -, failed⟩
    · exact checkedRoundUp_error failed
    rcases bind_eq_error.mp failed with failed | ⟨_, -, failed⟩
    · exact checkedMul_error failed
    rcases bind_eq_error.mp failed with failed | ⟨_, -, failed⟩
    · exact checkedAdd_error failed
    rcases bind_eq_error.mp failed with failed | ⟨_, -, failed⟩
    · exact ih failed
    · cases failed

namespace Layout

/-- One condition on the exact numbers decides about all the checks. -/
theorem ofMembers_eq_ok (positive : ∀ member ∈ members, 0 < member.alignmentIn pack)
    {layout : Layout} : Layout.ofMembers pack members = .ok layout ↔
      (Extent.exact pack 0 1 members).stop + (Extent.exact pack 0 1 members).alignment <
        sizeBound ∧ layout = Layout.exact pack members := by
  simp only [ofMembers, bind_eq_ok, checkedRoundUp_eq_ok, pure, Except.pure, Except.ok.injEq]
  constructor
  · rintro ⟨placed, made, _, ⟨fits, rfl⟩, rfl⟩
    rw [placeMembers_eq_exact made] at fits ⊢
    exact ⟨fits, rfl⟩
  · rintro ⟨fits, rfl⟩
    exact ⟨_, placeMembers_of_fits positive fits, _, ⟨fits, rfl⟩, rfl⟩

theorem toMember_mem_of_mem_exact {field : Field Layout}
    (within : field ∈ (exact pack members).fields) : field.toMember ∈ members := by
  have mapped := List.mem_map_of_mem (f := Field.toMember) within
  rwa [exact, Extent.exact_members] at mapped

theorem ofMembers_error {fault : Fault} (failed : ofMembers pack members = .error fault) :
    fault.IsOverflow := by
  rcases bind_eq_error.mp failed with failed | ⟨_, -, failed⟩
  · exact placeMembers_error failed
  rcases bind_eq_error.mp failed with failed | ⟨_, -, failed⟩
  · exact checkedRoundUp_error failed
  · cases failed

end Layout
end ForeignCall
