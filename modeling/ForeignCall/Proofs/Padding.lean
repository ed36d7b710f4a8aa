import ForeignCall.Proofs.Alignment

/-! Padding. In a structure without empty arrays, packed by powers of two if at all, padding is shorter
than an alignment that some scalar has. If the scalars are naturally aligned, wherever the structure
may lie, then so is the structure, and its padding ends within the eightbyte that it begins in. So
each eightbyte has a scalar, and none is passed in an integer register for want of one. -/
namespace ForeignCall

/-- What the C language can express: a packing by a power of two, if any, and no empty arrays. -/
def Step.Expressible (steps : List (Step α)) : Prop :=
  Step.Limits (fun limit => limit = 0 ∨ limit.isPowerOfTwo) steps ∧
    ∀ member ∈ Step.members steps, 0 < member.count

theorem Field.mem_pieces {field : Field Layout} {piece : Piece} : piece ∈ field.pieces ↔
    ∃ i < field.count, ∃ own ∈ field.element.pieces,
      own.shift (field.offset + i * field.element.size) = piece := by
  simp [Field.pieces, repeatPieces_eq]

theorem Piece.stop_le_eightbyte (piece : Piece) (aligned : piece.aligned) :
    piece.stop ≤ slotBytes * (piece.offset / slotBytes + 1) := by
  have positive := piece.type.size_pos
  have last : piece.overlaps ((piece.stop - 1) / slotBytes) := by
    apply (piece.overlaps_iff_byte _).mpr
    refine ⟨piece.stop - 1, ?_, ?_, rfl⟩ <;> simp only [stop] <;> omega
  have same := (overlaps_iff aligned _).mp last
  simp only [slotBytes] at same ⊢
  omega

/-- Every byte of the range shares its eightbyte with the first byte of some scalar. -/
def Covered (start stop : Nat) (pieces : List Piece) : Prop :=
  ∀ byte, start ≤ byte → byte < stop →
    ∃ piece ∈ pieces, piece.offset / slotBytes = byte / slotBytes

namespace Covered

variable {start middle stop : Nat} {pieces others : List Piece}

theorem nil (start : Nat) : Covered start start [] := by
  intro byte first last
  omega

theorem append (before : Covered start middle pieces) (behind : Covered middle stop others) :
    Covered start stop (pieces ++ others) := by
  intro byte first last
  rcases Nat.lt_or_ge byte middle with inside | outside
  · obtain ⟨piece, within, same⟩ := before byte first inside
    exact ⟨piece, List.mem_append_left _ within, same⟩
  · obtain ⟨piece, within, same⟩ := behind byte outside last
    exact ⟨piece, List.mem_append_right _ within, same⟩

theorem same_eightbyte {alignment multiple first second : Nat} (binary : alignment ∣ 8)
    (dvd : alignment ∣ multiple) (low : multiple ≤ first + alignment) (le : first ≤ second)
    (high : second < multiple) : first / slotBytes = second / slotBytes := by
  have positive := Nat.pos_of_dvd_of_pos binary (by decide)
  obtain ⟨blocks, rfl⟩ := dvd
  have block (byte : Nat) (low : alignment * blocks ≤ byte + alignment)
      (high : byte < alignment * blocks) : byte / alignment + 1 = blocks := by
    apply Nat.le_antisymm
    · exact Nat.succ_le_of_lt ((Nat.div_lt_iff_lt_mul positive).mpr (Nat.mul_comm .. ▸ high))
    · rw [← Nat.add_div_right byte positive]
      exact (Nat.le_div_iff_mul_le positive).mpr (Nat.mul_comm .. ▸ low)
  have same := (block first low (by omega)).trans (block second (by omega) high).symm
  obtain ⟨parts, eight⟩ := binary
  rw [slotBytes, eight, ← Nat.div_div_eq_div_mul, ← Nat.div_div_eq_div_mul, Nat.succ.inj same]

theorem pad {base size alignment : Nat} (covered : Covered base (base + size) pieces)
    (binary : alignment ∣ 8) (multiple : alignment ∣ base) :
    Covered base (base + roundUp size alignment) pieces := by
  intro byte first last
  rcases Nat.eq_zero_or_pos size with rfl | positive
  · rw [roundUp_zero] at last
    exact covered byte first last
  rcases Nat.lt_or_ge byte (base + size) with inside | outside
  · exact covered byte first inside
  -- The last byte before the padding is in the same eightbyte as the padding.
  obtain ⟨piece, within, same⟩ := covered (base + size - 1) (by omega) (by omega)
  refine ⟨piece, within, same.trans ?_⟩
  have short := roundUp_lt (Nat.pos_of_dvd_of_pos binary (by decide)) size
  have stop := Nat.dvd_add multiple (roundUp_dvd size alignment)
  exact same_eightbyte binary stop (by omega) (by omega) last

end Covered

/-- Some scalar is aligned as strictly, and lies at a multiple of the same number. -/
def Anchored (alignment : Nat) (pieces : List Piece) : Prop :=
  alignment = 1 ∨ ∃ piece ∈ pieces, alignment ∣ piece.offset ∧ alignment ∣ piece.type.alignment

/-- Where the scalars are naturally aligned, the whole has a suitable place. -/
theorem Anchored.dvd_base {alignment base : Nat} {pieces : List Piece}
    (anchored : Anchored alignment pieces)
    (aligned : ∀ piece ∈ pieces, (piece.shift base).aligned) : alignment ∣ base := by
  rcases anchored with rfl | ⟨piece, within, offset, natural⟩
  · exact Nat.one_dvd base
  · have multiple := (Piece.aligned_iff _).mp (aligned piece within)
    exact (Nat.dvd_add_left offset).mp (natural.trans multiple)

/-- An element with no more padding than its scalars ask for. -/
structure Element.Filled (element : Element Layout) : Prop where
  binary : element.alignment ∣ 8
  anchored : Anchored element.alignment element.pieces
  covered : ∀ base, (∀ piece ∈ element.pieces, (piece.shift base).aligned) →
    Covered base (base + element.size) (element.pieces.map (.shift base))

namespace Element

theorem scalar_filled (type : Scalar) : (scalar type).Filled := by
  refine ⟨type.size_dvd, .inr ⟨⟨0, type⟩, List.mem_singleton_self _, Nat.dvd_zero _, Nat.dvd_refl _⟩,
    fun base aligned byte first last => ⟨⟨base, type⟩, by simp [pieces, Piece.shift], ?_⟩⟩
  have whole := (Piece.overlaps_iff (aligned ⟨0, type⟩ (List.mem_singleton_self _))
    (byte / slotBytes)).mp
  apply whole
  apply (Piece.overlaps_iff_byte _ _).mpr
  exact ⟨byte, first, last, rfl⟩

theorem Filled.repeated {element : Element Layout} (filled : element.Filled) {base count : Nat}
    (aligned : ∀ i < count, ∀ piece ∈ element.pieces,
      (piece.shift (base + i * element.size)).aligned) :
    Covered base (base + element.size * count)
      ((repeatPieces element.size count element.pieces).map (.shift base)) := by
  rw [repeatPieces_eq]
  induction count with
  | zero => exact .nil base
  | succ count ih =>
    have before := ih fun i small => aligned i (Nat.lt_succ_of_lt small)
    have last := filled.covered _ (aligned count (Nat.lt_succ_self count))
    rw [List.range_succ, List.flatMap_append, List.flatMap_singleton, List.map_append]
    refine before.append ?_
    simpa [Nat.mul_succ, Nat.mul_comm, Nat.add_assoc, Function.comp_def] using last

end Element

section Placing

variable {pack : Option Nat} {members : List (Member Layout)}

theorem Extent.exact_covered (filled : ∀ member ∈ members, member.element.Filled) {base : Nat}
    (own : ∀ member ∈ members, member.alignmentIn pack ∣ 8 ∧ member.alignmentIn pack ∣ base)
    {start : Nat} (least : Nat)
    (aligned : ∀ field ∈ (exact pack start least members).fields,
      ∀ piece ∈ field.pieces, (piece.shift base).aligned)
    {pieces : List Piece} (before : Covered base (base + start) pieces) :
    Covered base (base + (exact pack start least members).stop)
      (pieces ++ ((exact pack start least members).fields.flatMap Field.pieces).map
        (.shift base)) := by
  -- On the fields still to come; `pieces` cover the bytes before them.
  induction members generalizing start least pieces with
  | nil => simpa [exact] using before
  | cons member rest ih =>
    obtain ⟨element, others⟩ := List.forall_mem_cons.mp filled
    obtain ⟨⟨binary, multiple⟩, later⟩ := List.forall_mem_cons.mp own
    obtain ⟨first, behind⟩ := List.forall_mem_cons.mp aligned
    have padded := before.pad binary multiple
    have here : ∀ i < member.count, ∀ piece ∈ member.element.pieces,
        (piece.shift (base + (member.place pack start).offset + i * member.element.size)).aligned := by
      intro i small piece within
      have placed := first _ (Field.mem_pieces.mpr ⟨i, small, piece, within, rfl⟩)
      rwa [Piece.shift_shift, ← Nat.add_assoc] at placed
    have field : Covered (base + (member.place pack start).offset)
        (base + (member.place pack start).stop)
        ((member.place pack start).pieces.map (.shift base)) := by
      have repeated := element.repeated here
      rw [Nat.add_assoc] at repeated
      rw [Field.pieces, List.map_map]
      simp only [Function.comp_def, Piece.shift_shift]
      exact repeated
    have joined := ih others later _ behind (padded.append field)
    rw [List.append_assoc, ← List.map_append] at joined
    exact joined

theorem Layout.exact_anchored (regular : ∀ limit ∈ pack, Regular limit)
    (filled : ∀ member ∈ members, 0 < member.count ∧ member.element.Filled) :
    Anchored (exact pack members).alignment (exact pack members).pieces := by
  -- The scalar is that of the strictest member, in the first element, as no array is empty.
  rcases exact_alignment_attained pack members with one | ⟨member, within, same⟩
  · exact .inl one
  obtain ⟨positive, element⟩ := filled member within
  have capped : member.alignmentIn pack ∣ member.element.alignment :=
    capAlignment_dvd regular element.binary
  rcases element.anchored with one | ⟨piece, own, offset, natural⟩
  · rw [one] at capped
    exact .inl (same.symm.trans (Nat.dvd_one.mp capped))
  · obtain ⟨field, placed, rfl⟩ : ∃ field ∈ (exact pack members).fields, field.toMember = member := by
      apply List.mem_map.mp
      rwa [exact, Extent.exact_members]
    have multiple := Extent.exact_aligned 0 1 field placed
    rw [← same]
    refine .inr ⟨piece.shift (field.offset + 0 * field.element.size), ?_, ?_, capped.trans natural⟩
    · rw [Layout.pieces_eq]
      exact List.mem_flatMap.mpr ⟨field, placed, Field.mem_pieces.mpr ⟨0, positive, piece, own, rfl⟩⟩
    · rw [Nat.zero_mul, Nat.add_zero]
      exact Nat.dvd_add multiple (capped.trans offset)

theorem Layout.exact_filled (regular : ∀ limit ∈ pack, Regular limit)
    (filled : ∀ member ∈ members, 0 < member.count ∧ member.element.Filled) :
    (Element.struct (exact pack members)).Filled := by
  have own : ∀ member ∈ members, member.alignmentIn pack ∣ 8 := by
    intro member within
    have binary := (filled member within).2.binary
    exact (capAlignment_dvd regular binary).trans binary
  have anchored := exact_anchored regular filled
  refine ⟨exact_alignment_dvd own, anchored, fun base aligned => ?_⟩
  have multiple : (exact pack members).alignment ∣ base := anchored.dvd_base aligned
  have suitable : ∀ member ∈ members,
      member.alignmentIn pack ∣ 8 ∧ member.alignmentIn pack ∣ base := fun member within =>
    ⟨own member within, (alignmentIn_dvd_exact own member within).trans multiple⟩
  have placed : ∀ field ∈ (exact pack members).fields, ∀ piece ∈ field.pieces,
      (piece.shift base).aligned := by
    intro field member piece within
    apply aligned
    rw [Element.pieces, Layout.pieces_eq]
    exact List.mem_flatMap.mpr ⟨field, member, within⟩
  have start : Covered base (base + 0) [] := .nil base
  have fields := Extent.exact_covered (fun member within => (filled member within).2) suitable 1
    placed start
  have covered := fields.pad (exact_alignment_dvd own) multiple
  rw [List.nil_append] at covered
  rw [Element.pieces, Layout.pieces_eq]
  exact covered

end Placing

theorem Declaration.Everywhere.filled {declaration : Declaration} {layout : Layout}
    (kept : declaration.Everywhere Step.Expressible) (made : declaration.layout = .ok layout) :
    (Element.struct layout).Filled := by
  refine kept.induct (fun declaration members ⟨limits, counts⟩ follow _ => ?_) made
  refine Layout.exact_filled (fun limit packed => (limits limit packed).imp_right .inl) ?_
  intro member within
  obtain ⟨source, declared, count, element⟩ := exists_of_forall₂ follow member within
  refine ⟨count ▸ counts source declared, ?_⟩
  exact element.related (motive := fun _ element => element.Filled) Element.scalar_filled

namespace EightbyteClass

theorem merge_ne_padding (kind : EightbyteClass) (field : RegisterClass) :
    kind.merge field ≠ .padding := by
  cases kind <;> cases field <;> simp [merge]

theorem foldl_merge_ne_padding {pieces : List Piece} (filled : pieces ≠ []) (start : EightbyteClass) :
    pieces.foldl (fun kind piece => kind.merge piece.type.registerClass) start ≠ .padding := by
  induction pieces generalizing start with
  | nil => contradiction
  | cons piece rest ih =>
    cases rest with
    | nil => exact start.merge_ne_padding _
    | cons next later => exact ih (List.cons_ne_nil next later) _

end EightbyteClass

theorem Layout.eightbyteClass_eq {layout : Layout} {index : Nat}
    (reached : ∃ piece ∈ layout.pieces, piece.overlaps index) : layout.eightbyteClass index =
      if ∃ piece ∈ layout.pieces, piece.overlaps index ∧ piece.type.registerClass = .integer
        then .integer else .float := by
  obtain ⟨piece, within, overlaps⟩ := reached
  unfold eightbyteClass
  by_cases integer : ∃ piece ∈ layout.pieces,
      piece.overlaps index ∧ piece.type.registerClass = .integer
  · obtain ⟨other, member, reaches, kind⟩ := integer
    rw [if_neg, if_pos ⟨other, member, reaches, kind⟩]
    rintro ⟨-, floating⟩
    cases kind.symm.trans (floating other (List.mem_filter.mpr ⟨member, reaches⟩))
  · rw [if_pos, if_neg integer]
    refine ⟨List.ne_nil_of_mem (List.mem_filter.mpr ⟨within, overlaps⟩), fun other filtered => ?_⟩
    obtain ⟨member, reaches⟩ := List.mem_filter.mp filtered
    cases kind : other.type.registerClass with
    | integer => exact absurd ⟨other, member, reaches, kind⟩ integer
    | float => rfl

/-- A structure of the C language, no larger than two registers and with naturally aligned scalars,
has a scalar in each of its eightbytes. So the integer registers that it asks for are as many as the
eightbytes with an integer scalar in them, and each of these goes to one; the float registers are for
the others, which hold floating-point scalars and nothing else. -/
theorem no_register_for_padding {declaration : Declaration} {layout : Layout}
    (made : declaration.layout = .ok layout) (kept : declaration.Everywhere Step.Expressible)
    (size : 0 < layout.size ∧ layout.size ≤ 16)
    (aligned : ∀ piece ∈ layout.pieces, piece.type.alignment ∣ piece.offset) :
    let kinds : List RegisterClass := (List.range ((layout.size + 7) / 8)).map fun index =>
      if ∃ piece ∈ layout.pieces, piece.overlaps index ∧ piece.type.registerClass = .integer
        then .integer else .float
    (∀ index, 8 * index < layout.size →
      (∃ piece ∈ layout.pieces, 8 * index ≤ piece.offset ∧ piece.stop ≤ 8 * (index + 1)) ∧
      EightbyteClass.ofPieces layout.pieces index ≠ .padding) ∧
    layout.eightbytes = kinds ∧
    ∀ (file : RegisterFile) (data : List Byte), layout.size ≤ data.length →
      file.classify .sysv layout data =
        if file.remaining .integer < kinds.count .integer ∨
            file.remaining .float < kinds.count .float then
          ⟨.ok (), [.registersShort (kinds.count .integer) (kinds.count .float)], file⟩
        else ⟨.ok (), [.unrolled (kinds.count .integer) (kinds.count .float)],
          file.pushAll (kinds.zip (wordsOf (data.take layout.size)))⟩ := by
  intro kinds
  have natural : ∀ piece ∈ layout.pieces, piece.aligned := fun piece within =>
    piece.aligned_iff.mpr (aligned piece within)
  have covered : Covered 0 layout.size layout.pieces := by
    have shifted := (kept.filled made).covered 0
    simp only [Element.pieces, Piece.shift_zero, id_eq, List.map_id, Nat.zero_add] at shifted
    exact shifted natural
  have begins : ∀ index, 8 * index < layout.size →
      ∃ piece ∈ layout.pieces, piece.offset / slotBytes = index := by
    intro index inside
    obtain ⟨piece, within, same⟩ := covered (8 * index) (Nat.zero_le _) inside
    exact ⟨piece, within, same.trans (Nat.mul_div_cancel_left index (by decide))⟩
  have classes : layout.eightbyteClasses = kinds := by
    refine List.map_congr_left fun index inside => Layout.eightbyteClass_eq ?_
    have below := List.mem_range.mp inside
    simp only [slotBytes] at below
    obtain ⟨piece, within, same⟩ := begins index (by omega)
    exact ⟨piece, within, (Piece.overlaps_iff (natural piece within) index).mpr same⟩
  refine ⟨fun index inside => ⟨?_, ?_⟩, ?_, fun file data enough => ?_⟩
  · obtain ⟨piece, within, same⟩ := begins index inside
    have last := piece.stop_le_eightbyte (natural piece within)
    simp only [slotBytes] at same last
    exact ⟨piece, within, by omega, by omega⟩
  · obtain ⟨piece, within, same⟩ := begins index inside
    apply EightbyteClass.foldl_merge_ne_padding
    exact List.ne_nil_of_mem (List.mem_filter.mpr ⟨within, beq_iff_eq.mpr same⟩)
  · exact (layout.eightbytes_eq (List.all_eq_true.mpr natural)).trans classes
  · have decided := file.classifySysV_eq enough
    rw [if_neg (by omega), if_pos natural, classes] at decided
    exact decided

def paddedShort : Declaration :=
  ⟨[.member (.scalar .short) 1, .member (.scalar .char) 1]⟩

/-- The padding is in the middle of an eightbyte. -/
def paddedVector : Declaration :=
  ⟨[.pack 4, .member (.struct paddedShort) 1, .member (.scalar .float) 3]⟩

theorem paddedVector_expressible : paddedVector.Everywhere Step.Expressible := by
  have four : Step.Limits (fun limit => limit = 0 ∨ limit.isPowerOfTwo) paddedVector.steps := by
    rintro _ ⟨⟩
    exact .inr ⟨2, rfl⟩
  have short : paddedShort.Everywhere Step.Expressible :=
    .intro ⟨nofun, by decide⟩ (by simp [paddedShort, Step.members])
  have nested : ∀ source ∈ Step.members paddedVector.steps,
      source.element.Everywhere Step.Expressible := by
    simp [paddedVector, Step.members, short]
  exact .intro ⟨four, by simp [paddedVector, Step.members]⟩ nested

theorem paddedVector_takes_one_of_each :
    ∃ layout, paddedVector.layout = .ok layout ∧ paddedVector.Everywhere Step.Expressible ∧
      (0 < layout.size ∧ layout.size ≤ 16) ∧
      (∀ piece ∈ layout.pieces, piece.type.alignment ∣ piece.offset) ∧
      layout.eightbytes = [.integer, .float] ∧
      (lastRegisters.classify .sysv layout (List.replicate 16 7)).records = [.unrolled 1 1] := by
  obtain ⟨layout, made⟩ : ∃ layout, paddedVector.layout = .ok layout := ⟨_, rfl⟩
  have size : 0 < layout.size ∧ layout.size ≤ 16 := by
    cases made
    decide
  have aligned : ∀ piece ∈ layout.pieces, piece.type.alignment ∣ piece.offset := by
    cases made
    decide
  obtain ⟨-, classes, taken⟩ := no_register_for_padding made paddedVector_expressible size aligned
  refine ⟨layout, made, paddedVector_expressible, size, aligned, ?_, ?_⟩
  · rw [classes]
    cases made
    decide
  · rw [taken lastRegisters (List.replicate 16 7) (by rw [List.length_replicate]; exact size.2)]
    cases made
    decide

end ForeignCall
