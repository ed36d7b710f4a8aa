import ForeignCall.Proofs.Checked

/-! What a classifier reads. By size, alignment and room it first decides whether it needs the data at
all. If it does, the data must not be shorter than the layout, and only so many bytes of it count; if
it does not, any data will do. -/
namespace ForeignCall

/-- The classifier has a use for the bytes of the aggregate. System V asks for room before it looks at
them, Microsoft x64 does not. -/
def Classifier.Reads (classifier : Classifier) (file : RegisterFile) (layout : Layout) : Prop :=
  match classifier with
  | .sysv => (1 ≤ layout.size ∧ layout.size ≤ 16) ∧
      (∀ piece ∈ layout.pieces, piece.type.alignment ∣ piece.offset) ∧
      layout.eightbytes.count .integer ≤ file.remaining .integer ∧
      layout.eightbytes.count .float ≤ file.remaining .float
  | .win64 => layout.size = 1 ∨ layout.size = 2 ∨ layout.size = 4 ∨ layout.size = 8

namespace RegisterFile

variable {file : RegisterFile} {classifier : Classifier} {layout : Layout}

/-- What a classifier makes of as many bytes as the layout has. -/
def settle (file : RegisterFile) (classifier : Classifier) (layout : Layout) (bytes : List Byte) :
    Outcome RegisterFile (Except Fault Unit) :=
  match classifier with
  | .sysv =>
    ⟨.ok (), [.unrolled (layout.eightbytes.count .integer) (layout.eightbytes.count .float)],
      file.pushAll (layout.eightbytes.zip (wordsOf bytes))⟩
  | .win64 =>
    let (placed, file) := file.push .integer (.ofBytes bytes)
    ⟨.ok (), if placed then [.inRegister layout.size] else [], file⟩

theorem settle_result (bytes : List Byte) :
    (file.settle classifier layout bytes).result = .ok () := by
  cases classifier <;> rfl

theorem classify_of_reads (reads : classifier.Reads file layout) (data : List Byte) :
    file.classify classifier layout data =
      match aggregateBytes data layout.size with
      | .error cause => .quiet file (.error cause)
      | .ok bytes => file.settle classifier layout bytes := by
  cases classifier with
  | win64 => exact if_pos ((Classifier.fitsRegister_iff _).mpr reads)
  | sysv =>
    obtain ⟨⟨positive, small⟩, multiples, integers, floats⟩ := reads
    have size : ¬(layout.size = 0 ∨ Classifier.sysvLimit < layout.size) := by
      rw [Classifier.sysvLimit]
      omega
    have aligned : layout.pieces.all Piece.aligned :=
      List.all_eq_true.mpr fun piece within => piece.aligned_iff.mpr (multiples piece within)
    have total := RegisterClass.count_add_count layout.eightbytes
    have others : layout.eightbytes.length - layout.eightbytes.count .float =
        layout.eightbytes.count .integer := by
      omega
    have room : ¬(file.remaining .integer < layout.eightbytes.count .integer ∨
        file.remaining .float < layout.eightbytes.count .float) := by
      omega
    rw [classify, classifySysV, if_neg size, if_pos aligned]
    simp only [others]
    exact if_neg room

theorem classify_of_not_reads (ignores : ¬classifier.Reads file layout) :
    ∃ outcome, outcome.result = .ok () ∧
      ∀ data, file.classify classifier layout data = outcome := by
  cases classifier with
  | win64 =>
    refine ⟨⟨.ok (), [.byMemory layout.size], file⟩, rfl, fun data => ?_⟩
    exact if_neg (mt (Classifier.fitsRegister_iff _).mp ignores)
  | sysv =>
    by_cases size : layout.size = 0 ∨ Classifier.sysvLimit < layout.size
    · exact ⟨⟨.ok (), [.memoryClass layout.size], file⟩, rfl, fun data => if_pos size⟩
    by_cases aligned : layout.pieces.all Piece.aligned
    · have total := RegisterClass.count_add_count layout.eightbytes
      let floats := layout.eightbytes.count .float
      let integers := layout.eightbytes.length - floats
      have short : file.remaining .integer < integers ∨ file.remaining .float < floats := by
        rw [Classifier.sysvLimit] at size
        apply Decidable.byContradiction
        intro room
        refine ignores ⟨by omega, fun piece within => ?_, by omega, by omega⟩
        exact piece.aligned_iff.mp (List.all_eq_true.mp aligned piece within)
      refine ⟨⟨.ok (), [.registersShort integers floats], file⟩, rfl, fun data => ?_⟩
      rw [classify, classifySysV, if_neg size, if_pos aligned]
      exact if_pos short
    · refine ⟨⟨.ok (), [.unaligned], file⟩, rfl, fun data => ?_⟩
      rw [classify, classifySysV, if_neg size, if_neg aligned]

theorem classify_of_short (reads : classifier.Reads file layout) {data : List Byte}
    (short : data.length < layout.size) : file.classify classifier layout data =
      .quiet file (.error (.dataShort data.length layout.size)) := by
  rw [classify_of_reads reads, aggregateBytes, if_neg (Nat.not_le.mpr short)]

theorem classify_of_enough (reads : classifier.Reads file layout) {data : List Byte}
    (enough : layout.size ≤ data.length) : file.classify classifier layout data =
      file.settle classifier layout (data.take layout.size) := by
  rw [classify_of_reads reads, aggregateBytes_of_le enough]

theorem classify_stop_iff {data : List Byte} {stop : Stop} :
    (file.classify classifier layout data).result.mapError .ofFault = .error stop ↔
      (data.length < layout.size ∧ classifier.Reads file layout) ∧
        stop = .range layout.size data.length := by
  by_cases reads : classifier.Reads file layout
  · rcases Nat.lt_or_ge data.length layout.size with short | enough
    · rw [classify_of_short reads short]
      constructor
      · rintro ⟨⟩
        exact ⟨⟨short, reads⟩, rfl⟩
      · rintro ⟨-, rfl⟩
        rfl
    · rw [classify_of_enough reads enough, settle_result]
      exact iff_of_false nofun fun failed => Nat.not_lt.mpr enough failed.1.1
  · obtain ⟨outcome, accepted, same⟩ := classify_of_not_reads reads
    rw [same, accepted]
    exact iff_of_false nofun fun failed => reads failed.1.2

theorem classify_congr {data other : List Byte}
    (agree : data.take layout.size = other.take layout.size) :
    file.classify classifier layout data = file.classify classifier layout other := by
  by_cases reads : classifier.Reads file layout
  · have lengths := congrArg List.length agree
    rw [List.length_take, List.length_take] at lengths
    rcases Nat.lt_or_ge data.length layout.size with short | enough
    · have same : data.length = other.length := by omega
      rw [classify_of_short reads short, classify_of_short reads (same ▸ short), same]
    · rw [classify_of_enough reads enough, classify_of_enough reads (by omega), agree]
  · obtain ⟨outcome, -, same⟩ := classify_of_not_reads reads
    rw [same, same]

end RegisterFile

/-- With every sum, difference, remainder, index and range on the way as an operation that may fail,
the classifiers come to the same as without, on registers of either platform and for any layout that
was built. They fail for short data alone, as a range of the data that ends past it: System V if the
aggregate is small, aligned and has room, Microsoft x64 if the aggregate fits a register, free or
not. A failure leaves the registers alone. Only as many bytes matter as the layout has, and where
fewer are no failure, none. -/
theorem classifiers_fail_for_short_data_only {platform : Platform} {area : ArgumentArea}
    (reachable : ArgumentArea.Reachable platform area) {layout : Layout} (built : layout.Built)
    (data : List Byte) :
    let file := area.registers
    let outcome (classifier : Classifier) (data : List Byte) :=
      file.checkedClassify classifier layout data
    (∀ classifier, outcome classifier data =
      (file.classify classifier layout data).mapResult (·.mapError .ofFault)) ∧
    (∀ stop, (outcome .sysv data).result = .error stop ↔
      (data.length < layout.size ∧ (1 ≤ layout.size ∧ layout.size ≤ 16) ∧
        (∀ piece ∈ layout.pieces, piece.type.alignment ∣ piece.offset) ∧
        layout.eightbytes.count .integer ≤ file.remaining .integer ∧
        layout.eightbytes.count .float ≤ file.remaining .float) ∧
      stop = .range layout.size data.length) ∧
    (∀ stop, (outcome .win64 data).result = .error stop ↔
      (data.length < layout.size ∧
        (layout.size = 1 ∨ layout.size = 2 ∨ layout.size = 4 ∨ layout.size = 8)) ∧
      stop = .range layout.size data.length) ∧
    (∀ classifier stop, (outcome classifier data).result = .error stop →
      (outcome classifier data).state = file ∧ (outcome classifier data).records = [] ∧
      stop.message =
        s!"range end index {layout.size} out of range for slice of length {data.length}") ∧
    (∀ classifier other, data.take layout.size = other.take layout.size →
      outcome classifier data = outcome classifier other) ∧
    ∀ classifier, data.length < layout.size → (outcome classifier data).result = .ok () →
      ∀ other, outcome classifier data = outcome classifier other := by
  intro file outcome
  have same (classifier : Classifier) (data : List Byte) : outcome classifier data =
      (file.classify classifier layout data).mapResult (·.mapError .ofFault) :=
    RegisterFile.checkedClassify_eq reachable.sound built classifier data
  have failed (classifier : Classifier) (stop : Stop) :
      (outcome classifier data).result = .error stop ↔
        (data.length < layout.size ∧ classifier.Reads file layout) ∧
          stop = .range layout.size data.length := by
    rw [same]
    exact RegisterFile.classify_stop_iff
  refine ⟨fun classifier => same classifier data, failed .sysv, failed .win64, ?_, ?_, ?_⟩
  · intro classifier stop stopped
    obtain ⟨⟨short, reads⟩, rfl⟩ := (failed classifier stop).mp stopped
    rw [same, RegisterFile.classify_of_short reads short]
    exact ⟨rfl, rfl, rfl⟩
  · intro classifier other agree
    rw [same, same, RegisterFile.classify_congr agree]
  · intro classifier short accepted other
    have ignores : ¬classifier.Reads file layout := fun reads => by
      rw [(failed classifier _).mpr ⟨⟨short, reads⟩, rfl⟩] at accepted
      cases accepted
    obtain ⟨settled, -, always⟩ := RegisterFile.classify_of_not_reads ignores
    rw [same, same, always, always]

/-- All positions are taken, and one byte is missing. Only Microsoft x64 looks at the bytes. -/
theorem full_windows_area_misses_a_byte :
    ArgumentArea.Reachable .windows fullWindowsArea ∧ shortPair.Built ∧
    (let outcome (classifier : Classifier) (data : List Byte) :=
      fullWindowsArea.registers.checkedClassify classifier shortPair data
    (outcome .win64 [1, 2, 3]).result = .error (.range 4 3) ∧
      (outcome .win64 [1, 2, 3]).state = fullWindowsArea.registers ∧
      (outcome .sysv [1, 2, 3]).result = .ok () ∧
      outcome .sysv [1, 2, 3] = outcome .sysv [] ∧
      outcome .win64 [1, 2, 3, 4] = outcome .win64 [1, 2, 3, 4, 5]) := by
  obtain ⟨same, -, exact, kept, -, unread⟩ :=
    classifiers_fail_for_short_data_only fullWindowsArea_reachable shortPair_built [1, 2, 3]
  obtain ⟨-, -, -, -, agree, -⟩ :=
    classifiers_fail_for_short_data_only fullWindowsArea_reachable shortPair_built [1, 2, 3, 4]
  have stopped := (exact (.range 4 3)).mpr ⟨⟨by decide, by decide⟩, rfl⟩
  have accepted : (fullWindowsArea.registers.checkedClassify .sysv shortPair [1, 2, 3]).result =
      .ok () := congrArg Outcome.result (same .sysv)
  exact ⟨fullWindowsArea_reachable, shortPair_built, stopped, (kept .win64 _ stopped).1, accepted,
    unread .sysv (by decide) accepted [], agree .win64 [1, 2, 3, 4, 5] rfl⟩

end ForeignCall
