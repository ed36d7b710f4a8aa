import ForeignCall.Proofs.Packing

/-! Arrays in two parts. Nothing lies between the elements of an array, so it may be declared as two
arrays, one behind the other, if none is put between these: the alignment that a packing leaves to an
element must divide its size. Powers of two see to that. The two layouts differ in their fields, but
a push looks at the size and the scalars of a layout and at nothing else. -/
namespace ForeignCall

/-! What there is to see of a layout. -/

/-- The layouts differ in the fields at most, as groups of scalars. -/
structure Layout.Agrees (layout other : Layout) : Prop where
  size : layout.size = other.size
  alignment : layout.alignment = other.alignment
  pieces : layout.pieces = other.pieces

namespace Layout.Agrees

variable {layout other : Layout}

theorem eightbytes (agrees : layout.Agrees other) : layout.eightbytes = other.eightbytes := by
  simp only [Layout.eightbytes, agrees.size, agrees.pieces]

theorem classify (agrees : layout.Agrees other) (file : RegisterFile) (classifier : Classifier)
    (data : List Byte) : file.classify classifier layout data =
      file.classify classifier other data := by
  cases classifier with
  | sysv =>
    simp only [RegisterFile.classify, RegisterFile.classifySysV, agrees.size, agrees.pieces,
      agrees.eightbytes]
  | win64 => simp only [RegisterFile.classify, RegisterFile.classifyWin64, agrees.size]

theorem pushStruct (agrees : layout.Agrees other) (area : ArgumentArea) (scheme : Scheme)
    (data : List Byte) : area.pushStruct scheme layout data = area.pushStruct scheme other data := by
  simp only [ArgumentArea.pushStruct, ArgumentArea.pushAggregate, agrees.size, agrees.classify]

end Layout.Agrees

/-! Two parts of an array. -/

theorem repeatPieces_add (stride m n : Nat) (pieces : List Piece) :
    repeatPieces stride (m + n) pieces = repeatPieces stride m pieces ++
      (repeatPieces stride n pieces).map (.shift (stride * m)) := by
  simp [repeatPieces_eq, List.range_add, List.flatMap_map, List.map_flatMap, Function.comp_def,
    Nat.add_mul, Nat.mul_comm stride]

theorem Field.pieces_add (element : Element Layout) (m n offset : Nat) :
    Field.pieces ⟨⟨element, m + n⟩, offset⟩ = Field.pieces ⟨⟨element, m⟩, offset⟩ ++
      Field.pieces ⟨⟨element, n⟩, offset + element.size * m⟩ := by
  simp [Field.pieces, repeatPieces_add, Function.comp_def]

structure Extent.Agrees (extent other : Extent) : Prop where
  stop : extent.stop = other.stop
  alignment : extent.alignment = other.alignment
  pieces : extent.fields.flatMap Field.pieces = other.fields.flatMap Field.pieces

section Seam

variable {pack : Option Nat} {element : Element Layout}

theorem Extent.exact_agrees (seamless : capAlignment pack element.alignment ∣ element.size)
    (before after : List (Member Layout)) (m n start alignment : Nat) :
    (exact pack start alignment (before ++ ⟨element, m + n⟩ :: after)).Agrees
      (exact pack start alignment (before ++ ⟨element, m⟩ :: ⟨element, n⟩ :: after)) := by
  induction before generalizing start alignment with
  | nil =>
    -- Both arrays end at the same place, and the placements go on alike from there.
    have seam : capAlignment pack element.alignment ∣
        (Member.place pack start ⟨element, m⟩).stop :=
      Nat.dvd_add (roundUp_dvd ..) (seamless.mul_right m)
    have second : Member.place pack (Member.place pack start ⟨element, m⟩).stop ⟨element, n⟩ =
        ⟨⟨element, n⟩, (Member.place pack start ⟨element, m⟩).stop⟩ :=
      congrArg (Field.mk _) (roundUp_of_dvd seam)
    have stop : Field.stop ⟨⟨element, n⟩, (Member.place pack start ⟨element, m⟩).stop⟩ =
        (Member.place pack start ⟨element, m + n⟩).stop := by
      simp [Field.stop, Member.place, Member.alignmentIn, Nat.mul_add, Nat.add_assoc]
    have largest : max (max alignment (Member.alignmentIn pack ⟨element, m⟩))
        (Member.alignmentIn pack ⟨element, n⟩) =
          max alignment (Member.alignmentIn pack ⟨element, m + n⟩) := by
      simp [Member.alignmentIn]
    have parts := Field.pieces_add element m n (roundUp start (capAlignment pack element.alignment))
    simp only [List.nil_append, exact, second, stop, largest]
    refine ⟨rfl, rfl, ?_⟩
    simp only [List.flatMap_cons, ← List.append_assoc]
    exact congrArg (· ++ _) parts
  | cons member rest ih =>
    obtain ⟨stop, alignment, pieces⟩ := ih (member.place pack start).stop
      (max alignment (member.alignmentIn pack))
    exact ⟨stop, alignment, congrArg ((member.place pack start).pieces ++ ·) pieces⟩

theorem Layout.exact_agrees (seamless : capAlignment pack element.alignment ∣ element.size)
    (before after : List (Member Layout)) (m n : Nat) :
    (exact pack (before ++ ⟨element, m + n⟩ :: after)).Agrees
      (exact pack (before ++ ⟨element, m⟩ :: ⟨element, n⟩ :: after)) := by
  obtain ⟨stop, alignment, pieces⟩ := Extent.exact_agrees seamless before after m n 0 1
  refine ⟨?_, alignment, ?_⟩
  · simp only [exact, stop, alignment]
  · simp only [Layout.pieces_eq, exact, pieces]

theorem Layout.ofMembers_split {before after : List (Member Layout)} {m n : Nat}
    (built : ∀ member ∈ before ++ ⟨element, m + n⟩ :: after, member.element.Built)
    (seamless : capAlignment pack element.alignment ∣ element.size) :
    ((∃ layout, ofMembers pack (before ++ ⟨element, m + n⟩ :: after) = .ok layout) ↔
      ∃ other, ofMembers pack (before ++ ⟨element, m⟩ :: ⟨element, n⟩ :: after) = .ok other) ∧
    ∀ layout other, ofMembers pack (before ++ ⟨element, m + n⟩ :: after) = .ok layout →
      ofMembers pack (before ++ ⟨element, m⟩ :: ⟨element, n⟩ :: after) = .ok other →
      layout.Agrees other := by
  have parts : ∀ member ∈ before ++ ⟨element, m⟩ :: ⟨element, n⟩ :: after,
      member.element.Built := by
    simp only [List.forall_mem_append, List.forall_mem_cons] at built ⊢
    exact ⟨built.1, built.2.1, built.2⟩
  -- Whether there is a layout depends on where the last member ends, and on the alignment.
  obtain ⟨stop, alignment, -⟩ := Extent.exact_agrees seamless before after m n 0 1
  simp only [ofMembers_eq_ok_of_built built, ofMembers_eq_ok_of_built parts, stop, alignment]
  constructor
  · simp
  · rintro _ _ ⟨-, rfl⟩ ⟨-, rfl⟩
    exact exact_agrees seamless before after m n

end Seam

namespace Step

variable {before after : List (Step α)} {element : Element α}

theorem members_array (count : Nat) : members (before ++ .member element count :: after) =
    members before ++ ⟨element, count⟩ :: members after := by
  simp [members]

theorem cap_arrays (m n : Nat) : cap (before ++ .member element m :: .member element n :: after) =
    cap (before ++ .member element (m + n) :: after) := by
  simp [cap, limits]

end Step

/-- An array may be declared in two parts, wherever it stands and whatever it is an array of, as long
as all packings are by powers of two. The one structure has a layout if and only if the other has. The
layouts have the same size, the same alignment and the same scalars, and no push tells them apart:
under any scheme, on any area and with any data, the result, the records and the area after it are the
same. -/
theorem arrays_may_be_split {before after : List (Step Layout)} {element : Element Layout}
    {m n : Nat} (binary : Step.Binary (before ++ .member element (m + n) :: after)) :
    let whole := Layout.ofSteps (before ++ .member element (m + n) :: after)
    let split := Layout.ofSteps (before ++ .member element m :: .member element n :: after)
    ((∃ layout, whole = .ok layout) ↔ ∃ other, split = .ok other) ∧
    ∀ layout other, whole = .ok layout → split = .ok other →
      layout.size = other.size ∧ layout.alignment = other.alignment ∧
      layout.pieces = other.pieces ∧
      ∀ (area : ArgumentArea) (scheme : Scheme) (data : List Byte),
        area.pushStruct scheme layout data = area.pushStruct scheme other data := by
  intro whole split
  have built := binary.built
  have placed := binary.element_placed
  simp only [Step.members_array] at built placed
  obtain ⟨eight, stride⟩ := placed ⟨element, m + n⟩ (by simp)
  have seamless := (capAlignment_dvd binary.regular eight).trans stride
  obtain ⟨layouts, agree⟩ := Layout.ofMembers_split built seamless
  simp only [whole, split, Layout.ofSteps_eq_cap, Step.members_array, Step.cap_arrays]
  refine ⟨layouts, fun layout other made parts => ?_⟩
  have agrees := agree layout other made parts
  exact ⟨agrees.size, agrees.alignment, agrees.pieces, agrees.pushStruct⟩

/-- A packing to three bytes puts two of padding between numbers of four, though not in an array. -/
example :
    (Layout.ofSteps [.pack 3, .member (.scalar .int) 2]).map Layout.size = .ok 9 ∧
    (Layout.ofSteps [.pack 3, .member (.scalar .int) 1, .member (.scalar .int) 1]).map Layout.size =
      .ok 12 :=
  ⟨rfl, rfl⟩

theorem shortPair_under : shortPair.Under
    (Step.Limits fun limit => limit = 0 ∨ limit.isPowerOfTwo) :=
  ⟨⟨[.member (.scalar .short) 1, .member (.scalar .char) 1]⟩,
    .intro nofun (by simp [Step.members]), rfl⟩

def packedNumber : List (Step Layout) := [.pack 2, .member (.scalar .float) 1]

theorem packedNumber_binary : Step.Binary
    (packedNumber ++ .member (.struct shortPair) (2 + 3) :: [.member (.scalar .double) 1]) := by
  refine ⟨?_, by simp [packedNumber, Step.members, shortPair_under]⟩
  rintro _ ⟨⟩
  exact .inr ⟨1, rfl⟩

theorem five_pairs_may_be_split :
    Step.Binary
      (packedNumber ++ .member (.struct shortPair) (2 + 3) :: [.member (.scalar .double) 1]) ∧
    ∃ layout other,
      Layout.ofSteps (packedNumber ++ .member (.struct shortPair) (2 + 3) ::
        [.member (.scalar .double) 1]) = .ok layout ∧
      Layout.ofSteps (packedNumber ++ .member (.struct shortPair) 2 ::
        .member (.struct shortPair) 3 :: [.member (.scalar .double) 1]) = .ok other ∧
      layout ≠ other ∧ layout.size = other.size ∧ layout.alignment = other.alignment ∧
      layout.pieces = other.pieces ∧
      ∀ data, fullWindowsArea.pushStruct .sysv layout data =
        fullWindowsArea.pushStruct .sysv other data := by
  obtain ⟨layouts, same⟩ := arrays_may_be_split packedNumber_binary
  obtain ⟨layout, made⟩ : ∃ layout, Layout.ofSteps (packedNumber ++
    .member (.struct shortPair) (2 + 3) :: [.member (.scalar .double) 1]) = .ok layout := ⟨_, rfl⟩
  obtain ⟨other, parts⟩ := layouts.mp ⟨layout, made⟩
  obtain ⟨size, alignment, pieces, push⟩ := same layout other made parts
  refine ⟨packedNumber_binary, layout, other, made, parts, ?_, size, alignment, pieces,
    push fullWindowsArea .sysv⟩
  cases made
  cases parts
  decide

end ForeignCall
