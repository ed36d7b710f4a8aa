import ForeignCall.Proofs.Flattening
import ForeignCall.Proofs.Unrolling

/-! Classifiers that check each operation. The classifiers count with numbers that have no bound, read
lists by filters and never meet a zero divisor. Here they are again with every sum, difference,
remainder, index and range as an operation that may stop them, in the order in which they come. For a
built layout and sound registers nothing does, but for the range of the data. -/
namespace ForeignCall

/-- What stops a classifier that checks its operations. -/
inductive Stop where
  | fault (cause : Fault)
  | difference
  | remainder
  | index (place length : Nat)
  | range (stop length : Nat)
  deriving DecidableEq

namespace Stop

def message : Stop → String
  | .fault cause => cause.message
  | .difference => "attempt to subtract with overflow"
  | .remainder => "attempt to calculate the remainder with a divisor of zero"
  | .index place length => s!"index out of bounds: the len is {length} but the index is {place}"
  | .range stop length => s!"range end index {stop} out of range for slice of length {length}"

/-- Short data is a range of the data. -/
def ofFault : Fault → Stop
  | .dataShort given size => range size given
  | cause => fault cause

end Stop

/-! Operations. -/

theorem ok_bind (a : α) (f : α → Except ε β) : (Except.ok a >>= f) = f a := rfl

def checkedSub (a b : Nat) : Except Stop Nat :=
  if b ≤ a then .ok (a - b) else .error .difference

def checkedMod (a b : Nat) : Except Stop Nat :=
  if 0 < b then .ok (a % b) else .error .remainder

def elementAt (elements : List α) (index : Nat) : Except Stop α :=
  if inside : index < elements.length then .ok elements[index]
  else .error (.index index elements.length)

def rangeTo (elements : List α) (stop : Nat) : Except Stop (List α) :=
  if stop ≤ elements.length then .ok (elements.take stop)
  else .error (.range stop elements.length)

theorem checkedSub_of_le {a b : Nat} (le : b ≤ a) : checkedSub a b = .ok (a - b) := if_pos le

theorem checkedMod_of_pos (a : Nat) {b : Nat} (positive : 0 < b) :
    checkedMod a b = .ok (a % b) := if_pos positive

theorem elementAt_of_lt {elements : List α} {index : Nat} (inside : index < elements.length) :
    elementAt elements index = .ok elements[index] := dif_pos inside

theorem rangeTo_of_le {elements : List α} {stop : Nat} (inside : stop ≤ elements.length) :
    rangeTo elements stop = .ok (elements.take stop) := if_pos inside

/-! Classes of eightbytes, found scalar by scalar. -/

/-- Whether all scalars so far are aligned, and the classes so far. -/
structure Scan where
  aligned : Bool
  classes : List EightbyteClass

namespace Scan

/-- A scalar that is not aligned is noted and otherwise ignored. -/
def step (scan : Scan) (piece : Piece) : Except Stop Scan := do
  let beyond ← checkedMod piece.offset piece.type.alignment
  if beyond ≠ 0 then return { scan with aligned := false }
  let index := piece.offset / slotBytes
  let kind ← elementAt scan.classes index
  return { scan with classes := scan.classes.set index (kind.merge piece.type.registerClass) }

def next (scan : Scan) (piece : Piece) : Scan :=
  if piece.aligned then
    ⟨scan.aligned,
      scan.classes.modify (piece.offset / slotBytes) (·.merge piece.type.registerClass)⟩
  else ⟨false, scan.classes⟩

@[simp] theorem next_length (scan : Scan) (piece : Piece) :
    (scan.next piece).classes.length = scan.classes.length := by
  unfold next
  split <;> simp

theorem step_eq_ok {scan : Scan} {piece : Piece}
    (inside : piece.offset / slotBytes < scan.classes.length) :
    scan.step piece = .ok (scan.next piece) := by
  have divides := checkedMod_of_pos piece.offset (b := piece.type.alignment) piece.type.size_pos
  unfold step next
  rw [divides]
  by_cases aligned : piece.aligned
  · have multiple : piece.offset % piece.type.alignment = 0 := beq_iff_eq.mp aligned
    refine (if_neg (not_not.mpr multiple)).trans ?_
    rw [if_pos aligned, elementAt_of_lt inside, List.modify_eq_set_get]
    rfl
  · have beyond : piece.offset % piece.type.alignment ≠ 0 := fun multiple =>
      aligned (beq_iff_eq.mpr multiple)
    rw [if_neg aligned]
    exact if_pos beyond

theorem foldlM_step {pieces : List Piece} (scan : Scan)
    (inside : ∀ piece ∈ pieces, piece.offset / slotBytes < scan.classes.length) :
    pieces.foldlM step scan = .ok (pieces.foldl next scan) := by
  induction pieces generalizing scan with
  | nil => rfl
  | cons piece rest ih =>
    obtain ⟨own, others⟩ := List.forall_mem_cons.mp inside
    rw [List.foldlM_cons, step_eq_ok own]
    exact ih (scan.next piece) (by simpa using others)

theorem foldl_next_aligned (pieces : List Piece) (scan : Scan) :
    (pieces.foldl next scan).aligned = (scan.aligned && pieces.all Piece.aligned) := by
  induction pieces generalizing scan with
  | nil => simp
  | cons piece rest ih =>
    rw [List.foldl_cons, ih, next]
    cases aligned : piece.aligned <;> simp [aligned]

/-- The class at each index is that of the scalars which begin in its eightbyte. -/
theorem foldl_next_classes {pieces : List Piece} (aligned : ∀ piece ∈ pieces, piece.aligned)
    (scan : Scan) (index : Nat) : (pieces.foldl next scan).classes[index]? =
      scan.classes[index]?.map fun kind =>
        (pieces.filter fun piece => piece.offset / slotBytes == index).foldl
          (fun kind piece => kind.merge piece.type.registerClass) kind := by
  induction pieces generalizing scan with
  | nil => simp
  | cons piece rest ih =>
    obtain ⟨own, others⟩ := List.forall_mem_cons.mp aligned
    rw [List.foldl_cons, ih others, next, if_pos own, List.getElem?_modify, List.filter_cons]
    by_cases here : piece.offset / slotBytes = index
    · simp [here, Function.comp_def]
    · simp [here]

end Scan

/-! Registers. -/

namespace SlotRow

/-- A push that checks its counter, once the word has been written. -/
def pushChecked (row : SlotRow n) (word : Word) : Outcome (SlotRow n) (Except Stop Bool) :=
  if free : row.used < n then
    let written := { row with slots := row.slots.set row.used word }
    match checkedAdd row.used 1 with
    | .ok used => .quiet { written with used } (.ok true)
    | .error cause => .quiet written (.error (.fault cause))
  else .quiet row (.ok false)

theorem pushChecked_eq (row : SlotRow n) (word : Word) (small : n < sizeBound) :
    row.pushChecked word = .quiet (row.push word).2 (.ok (row.push word).1) := by
  by_cases free : row.used < n
  · have counted : checkedAdd row.used 1 = .ok (row.used + 1) :=
      checkedAdd_eq_ok.mpr ⟨by omega, rfl⟩
    rw [push_of_free free, pushChecked, dif_pos free, counted]
  · rw [push_of_full (Nat.not_lt.mp free), pushChecked, dif_neg free]

end SlotRow

def chunksOf (data : List Byte) : List (List Byte) :=
  (List.range ((data.length + slotBytes - 1) / slotBytes)).map fun index =>
    (data.drop (slotBytes * index)).take slotBytes

theorem wordsOf_eq_chunks (data : List Byte) : wordsOf data = (chunksOf data).map Word.ofBytes := by
  rw [wordsOf, chunksOf, List.map_map]
  rfl

theorem chunk_length {data chunk : List Byte} (within : chunk ∈ chunksOf data) :
    chunk.length ≤ slotBytes := by
  obtain ⟨index, -, rfl⟩ := List.mem_map.mp within
  exact List.length_take_le _ _

/-- A word is read by way of eight zero bytes, the first of which are replaced. -/
def wordChecked (bytes : List Byte) : Except Stop Word := do
  let _ ← rangeTo (List.replicate slotBytes (0 : Byte)) bytes.length
  return .ofBytes bytes

theorem wordChecked_of_le {bytes : List Byte} (short : bytes.length ≤ slotBytes) :
    wordChecked bytes = .ok (.ofBytes bytes) := by
  rw [wordChecked, rangeTo_of_le (by rwa [List.length_replicate])]
  rfl

namespace RegisterFile

def remainingChecked (file : RegisterFile) (kind : RegisterClass) : Except Stop Nat :=
  checkedSub (file.slots kind).length (file.used kind)

theorem Sound.remainingChecked {platform : Platform} {file : RegisterFile}
    (sound : Sound platform file) (kind : RegisterClass) :
    file.remainingChecked kind = .ok (file.remaining kind) :=
  checkedSub_of_le (sound.used kind)

def pushChecked (file : RegisterFile) (kind : RegisterClass) (word : Word) :
    Outcome RegisterFile (Except Stop Bool) :=
  match file, kind with
  | separate integers floats, .integer => (integers.pushChecked word).within (separate · floats)
  | separate integers floats, .float => (floats.pushChecked word).within (separate integers ·)
  | shared slots, _ => (slots.pushChecked word).within shared

theorem pushChecked_eq (file : RegisterFile) (kind : RegisterClass) (word : Word) :
    file.pushChecked kind word =
      .quiet (file.push kind word).2 (.ok (file.push kind word).1) := by
  cases file with
  | separate integers floats =>
    cases kind with
    | integer =>
      rw [pushChecked, integers.pushChecked_eq word (by decide)]
      rfl
    | float =>
      rw [pushChecked, floats.pushChecked_eq word (by decide)]
      rfl
  | shared slots =>
    rw [pushChecked, slots.pushChecked_eq word (by decide), push_shared]
    rfl

/-- Pushes word after word, and stops where one cannot be read or counted. -/
def pushChunks (file : RegisterFile) :
    List (List Byte × EightbyteClass) → Outcome RegisterFile (Except Stop Unit)
  | [] => .quiet file (.ok ())
  | (chunk, kind) :: rest =>
    match wordChecked chunk with
    | .error stop => .quiet file (.error stop)
    | .ok word =>
      let pushed := file.pushChecked kind.registerClass word
      match pushed.result with
      | .error stop => .quiet pushed.state (.error stop)
      | .ok _ => pushed.state.pushChunks rest

theorem pushChunks_eq (file : RegisterFile) {chunks : List (List Byte × EightbyteClass)}
    (short : ∀ chunk ∈ chunks, chunk.1.length ≤ slotBytes) : file.pushChunks chunks =
      .quiet (file.pushAll (chunks.map fun chunk => (chunk.2.registerClass, .ofBytes chunk.1)))
        (.ok ()) := by
  induction chunks generalizing file with
  | nil => rfl
  | cons chunk rest ih =>
    obtain ⟨own, others⟩ := List.forall_mem_cons.mp short
    rw [pushChunks, wordChecked_of_le own]
    dsimp only
    rw [pushChecked_eq]
    exact ih _ others

/-! Classifiers. -/

/-- Where an aggregate goes by the rules of System V, before any of it has been moved. -/
inductive Verdict where
  | memory (reason : Record)
  | registers (integers floats : Nat) (chunks : List (List Byte × EightbyteClass))

def verdictChecked (file : RegisterFile) (layout : Layout) (data : List Byte) :
    Except Stop Verdict := do
  if layout.size = 0 ∨ Classifier.sysvLimit < layout.size then
    return .memory (.memoryClass layout.size)
  -- The traversal is over before the first scalar is looked at. In turns or not, the same checks are
  -- made, so a failure of either is a failure here.
  let pieces ← (layout.visit 0).mapError .fault
  let scan ← pieces.foldlM Scan.step ⟨true, [.padding, .padding]⟩
  if !scan.aligned then return .memory .unaligned
  let past ← (checkedAdd layout.size slotBytes).mapError .fault
  let last ← checkedSub past 1
  let eightbytes ← rangeTo scan.classes (last / slotBytes)
  let floats := eightbytes.count .float
  let integers ← checkedSub eightbytes.length floats
  if (← file.remainingChecked .integer) < integers then
    return .memory (.registersShort integers floats)
  if (← file.remainingChecked .float) < floats then
    return .memory (.registersShort integers floats)
  let bytes ← rangeTo data layout.size
  return .registers integers floats ((chunksOf bytes).zip eightbytes)

def checkedSysV (file : RegisterFile) (layout : Layout) (data : List Byte) :
    Outcome RegisterFile (Except Stop Unit) :=
  match file.verdictChecked layout data with
  | .error stop => .quiet file (.error stop)
  | .ok (.memory reason) => ⟨.ok (), [reason], file⟩
  | .ok (.registers integers floats chunks) =>
    let pushed := file.pushChunks chunks
    match pushed.result with
    | .error stop => .quiet pushed.state (.error stop)
    | .ok () => ⟨.ok (), [.unrolled integers floats], pushed.state⟩

def checkedWin64 (file : RegisterFile) (layout : Layout) (data : List Byte) :
    Outcome RegisterFile (Except Stop Unit) :=
  if Classifier.fitsRegister layout.size then
    match do wordChecked (← rangeTo data layout.size) with
    | .error stop => .quiet file (.error stop)
    | .ok word =>
      let pushed := file.pushChecked .integer word
      match pushed.result with
      | .error stop => .quiet pushed.state (.error stop)
      | .ok placed =>
        ⟨.ok (), if placed then [.inRegister layout.size] else [], pushed.state⟩
  else ⟨.ok (), [.byMemory layout.size], file⟩

def checkedClassify (file : RegisterFile) : Classifier → Layout → List Byte →
    Outcome RegisterFile (Except Stop Unit)
  | .sysv => file.checkedSysV
  | .win64 => file.checkedWin64

end RegisterFile

def Layout.eightbyteKinds (layout : Layout) : List EightbyteClass :=
  (List.range ((layout.size + slotBytes - 1) / slotBytes)).map
    (EightbyteClass.ofPieces layout.pieces)

theorem Layout.eightbytes_eq_map (layout : Layout) :
    layout.eightbytes = layout.eightbyteKinds.map EightbyteClass.registerClass := by
  rw [eightbytes, eightbyteKinds, List.map_map]
  rfl

theorem EightbyteClass.count_float (kinds : List EightbyteClass) :
    kinds.count .float = (kinds.map registerClass).count .float := by
  rw [List.count, List.count, List.countP_map]
  refine List.countP_congr fun kind _ => ?_
  simp [registerClass_eq_float_iff]

theorem Scan.classes_of_aligned {layout : Layout} (small : layout.size ≤ 16)
    (aligned : layout.pieces.all Piece.aligned) :
    rangeTo (layout.pieces.foldl next ⟨true, [.padding, .padding]⟩).classes
      ((layout.size + slotBytes - 1) / slotBytes) = .ok layout.eightbyteKinds := by
  have classes : (layout.pieces.foldl next ⟨true, [.padding, .padding]⟩).classes =
      (List.range 2).map (EightbyteClass.ofPieces layout.pieces) := by
    apply List.ext_getElem?
    intro index
    rw [foldl_next_classes (List.all_eq_true.mp aligned)]
    rcases index with _ | _ | index
    · rfl
    · rfl
    · simp
  have inside : (layout.size + slotBytes - 1) / slotBytes ≤ 2 := by
    simp only [slotBytes]
    omega
  rw [classes, rangeTo_of_le (by simpa using inside), Layout.eightbyteKinds, ← List.map_take,
    List.take_range, Nat.min_eq_left inside]

namespace RegisterFile

theorem verdictChecked_eq {platform : Platform} {file : RegisterFile} (sound : Sound platform file)
    {layout : Layout} (built : layout.Built) (data : List Byte) :
    file.verdictChecked layout data =
      let floats := layout.eightbytes.count .float
      let integers := layout.eightbytes.length - floats
      if layout.size = 0 ∨ Classifier.sysvLimit < layout.size then
        .ok (.memory (.memoryClass layout.size))
      else if layout.pieces.all Piece.aligned then
        if file.remaining .integer < integers ∨ file.remaining .float < floats then
          .ok (.memory (.registersShort integers floats))
        else (rangeTo data layout.size).map fun bytes =>
          .registers integers floats ((chunksOf bytes).zip layout.eightbyteKinds)
      else .ok (.memory .unaligned) := by
  by_cases size : layout.size = 0 ∨ Classifier.sysvLimit < layout.size
  · rw [verdictChecked, if_pos size, if_pos size]
    rfl
  have small : layout.size ≤ 16 := Nat.not_lt.mp fun large => size (.inr large)
  have visited : layout.visit 0 = .ok layout.pieces := built.visit_zero
  have scanned := Scan.foldlM_step ⟨true, [.padding, .padding]⟩ (built.begin_in_two small)
  have flag := Scan.foldl_next_aligned layout.pieces ⟨true, [.padding, .padding]⟩
  rw [Bool.true_and] at flag
  rw [if_neg size, verdictChecked, if_neg size, visited]
  simp only [Except.mapError, ok_bind, scanned, flag]
  by_cases aligned : layout.pieces.all Piece.aligned
  · have past : checkedAdd layout.size slotBytes = .ok (layout.size + slotBytes) :=
      checkedAdd_eq_ok.mpr ⟨by simp only [slotBytes, sizeBound]; omega, rfl⟩
    have last : checkedSub (layout.size + slotBytes) 1 = .ok (layout.size + slotBytes - 1) :=
      checkedSub_of_le (by omega)
    have floats : layout.eightbyteKinds.count .float = layout.eightbytes.count .float := by
      rw [EightbyteClass.count_float, layout.eightbytes_eq_map]
    have length : layout.eightbyteKinds.length = layout.eightbytes.length := by
      rw [layout.eightbytes_eq_map, List.length_map]
    have integers : checkedSub layout.eightbytes.length (layout.eightbytes.count .float) =
        .ok (layout.eightbytes.length - layout.eightbytes.count .float) :=
      checkedSub_of_le List.count_le_length
    simp only [aligned, past, last, ok_bind, Scan.classes_of_aligned small aligned, floats, length,
      integers, sound.remainingChecked, Bool.not_true, Bool.false_eq_true, if_false, if_true]
    by_cases short : file.remaining .integer <
        layout.eightbytes.length - layout.eightbytes.count .float
    · rw [if_pos short, if_pos (.inl short)]
      rfl
    · rw [if_neg short]
      by_cases few : file.remaining .float < layout.eightbytes.count .float
      · rw [if_pos few, if_pos (.inr few)]
        rfl
      · rw [if_neg few, if_neg (not_or.mpr ⟨short, few⟩)]
        cases rangeTo data layout.size <;> rfl
  · simp only [aligned]
    rfl

theorem rangeTo_data (data : List Byte) (size : Nat) :
    rangeTo data size = (aggregateBytes data size).mapError Stop.ofFault := by
  unfold rangeTo aggregateBytes
  split <;> rfl

theorem pushChunks_wordsOf (file : RegisterFile) (layout : Layout) (bytes : List Byte) :
    file.pushChunks ((chunksOf bytes).zip layout.eightbyteKinds) =
      .quiet (file.pushAll (layout.eightbytes.zip (wordsOf bytes))) (.ok ()) := by
  have short : ∀ chunk ∈ (chunksOf bytes).zip layout.eightbyteKinds,
      chunk.1.length ≤ slotBytes := fun chunk within => chunk_length (List.of_mem_zip within).1
  have words : ((chunksOf bytes).zip layout.eightbyteKinds).map
      (fun chunk => (chunk.2.registerClass, Word.ofBytes chunk.1)) =
        layout.eightbytes.zip (wordsOf bytes) := by
    rw [layout.eightbytes_eq_map, wordsOf_eq_chunks, List.zip_eq_zipWith, List.zip_eq_zipWith,
      List.zipWith_map, List.map_zipWith, List.zipWith_comm]
  rw [file.pushChunks_eq short, words]

theorem checkedSysV_eq {platform : Platform} {file : RegisterFile} (sound : Sound platform file)
    {layout : Layout} (built : layout.Built) (data : List Byte) :
    file.checkedSysV layout data =
      (file.classifySysV layout data).mapResult (·.mapError .ofFault) := by
  rw [checkedSysV, verdictChecked_eq sound built, classifySysV]
  by_cases size : layout.size = 0 ∨ Classifier.sysvLimit < layout.size
  · simp only [if_pos size]
    rfl
  by_cases aligned : layout.pieces.all Piece.aligned
  · simp only [if_neg size, if_pos aligned]
    by_cases short : file.remaining .integer <
        layout.eightbytes.length - layout.eightbytes.count .float ∨
          file.remaining .float < layout.eightbytes.count .float
    · simp only [if_pos short]
      rfl
    simp only [if_neg short, rangeTo_data]
    cases aggregateBytes data layout.size with
    | error cause => rfl
    | ok bytes =>
      simp only [Except.mapError, Except.map, pushChunks_wordsOf]
      rfl
  · simp only [if_neg size, if_neg aligned]
    rfl

theorem checkedWin64_eq (file : RegisterFile) (layout : Layout) (data : List Byte) :
    file.checkedWin64 layout data =
      (file.classifyWin64 layout data).mapResult (·.mapError .ofFault) := by
  unfold checkedWin64 classifyWin64
  by_cases fits : Classifier.fitsRegister layout.size
  · have sizes := (Classifier.fitsRegister_iff _).mp fits
    rw [if_pos fits, if_pos fits, rangeTo_data, aggregateBytes]
    by_cases enough : layout.size ≤ data.length
    · have short : (data.take layout.size).length ≤ slotBytes := by
        rw [List.length_take_of_le enough, slotBytes]
        omega
      rw [if_pos enough]
      simp only [Except.mapError, ok_bind, wordChecked_of_le short, pushChecked_eq]
      rfl
    · rw [if_neg enough]
      rfl
  · rw [if_neg fits, if_neg fits]
    rfl

/-- No check fails other than that of the data's length, and the checks change nothing else. -/
theorem checkedClassify_eq {platform : Platform} {file : RegisterFile}
    (sound : Sound platform file) {layout : Layout} (built : layout.Built)
    (classifier : Classifier) (data : List Byte) : file.checkedClassify classifier layout data =
      (file.classify classifier layout data).mapResult (·.mapError .ofFault) := by
  cases classifier with
  | sysv => exact checkedSysV_eq sound built data
  | win64 => exact checkedWin64_eq file layout data

end RegisterFile
end ForeignCall
