import ForeignCall.Proofs.Straight

/-! Rows of registers that are loaded from consecutive words. What a row is made of differs: an integer
register, a vector register, or one of each that receive the same word. `row_leads` is about all of
them, and each kind of row only has to say what one of its cells does. -/
namespace ForeignCall.X64

inductive Target where
  | gpr (register : Gpr)
  | xmm (register : Xmm)
  deriving DecidableEq

def Machine.word (m : Machine) : Target → Word
  | .gpr register => m.gpr register
  | .xmm register => m.lowXmm register

/-- The targets hold the word, and nothing else has changed. -/
structure Filled (targets : List Target) (word : Word) (before after : Machine) : Prop where
  filled : ∀ target ∈ targets, after.word target = word
  kept : ∀ target, target ∉ targets → after.word target = before.word target
  memory : after.memory = before.memory

variable {α : Type} {code : α → Place → List Instr} {cell : α → List Target} {base : Gpr}

/-- Code that fills one cell from a place does so for a row of cells from consecutive words. -/
theorem row_leads
    (step : ∀ entry distance m, ∃ after, Leads (code entry ⟨base, distance⟩) m after ∧
      Filled (cell entry) (m.loadWord (m.address ⟨base, distance⟩)) m after)
    {row : List α} (distinct : (row.flatMap cell).Nodup) (clear : .gpr base ∉ row.flatMap cell)
    (k : Nat) (m : Machine) :
    ∃ after, Leads (row.mapIdx fun i entry => code entry ⟨base, 8 * (i + k : Nat)⟩).flatten m after ∧
      (∀ i, (inside : i < row.length) → ∀ target ∈ cell row[i],
        after.word target = m.loadWord (m.gpr base + BitVec.ofNat 64 (8 * (i + k)))) ∧
      (∀ target, target ∉ row.flatMap cell → after.word target = m.word target) ∧
      after.memory = m.memory := by
  -- `k` counts the cells that came before.
  induction row generalizing k m with
  | nil => exact ⟨m, .nil m, nofun, fun _ _ => rfl, rfl⟩
  | cons entry rest ih =>
    simp only [List.flatMap_cons, List.nodup_append, List.mem_append, not_or] at distinct clear
    obtain ⟨-, distinct, separate⟩ := distinct
    obtain ⟨middle, first, filled⟩ := step entry (8 * (0 + k : Nat)) m
    have anchor : middle.gpr base = m.gpr base := filled.kept (.gpr base) clear.1
    obtain ⟨after, others, words, kept, memory⟩ := ih distinct clear.2 (k + 1) middle
    refine ⟨after, ?_, ?_, ?_, memory.trans filled.memory⟩
    · rw [List.mapIdx_cons, List.flatten_cons]
      simp only [Nat.add_assoc, Nat.add_comm 1 k]
      exact first.append others
    · intro i inside target member
      cases i with
      | zero =>
        rw [kept target fun again => separate target member target again rfl,
          filled.filled target member, Machine.address, ← BitVec.ofInt_natCast]
        rfl
      | succ i =>
        rw [words i (Nat.lt_of_succ_lt_succ inside) target member, anchor, Machine.loadWord,
          filled.memory, Machine.loadWord, Nat.add_right_comm, Nat.add_assoc]
    · intro target outside
      simp only [List.flatMap_cons, List.mem_append, not_or] at outside
      rw [kept target outside.2, filled.kept target outside.1]

theorem row_words
    (step : ∀ entry distance m, ∃ after, Leads (code entry ⟨base, distance⟩) m after ∧
      Filled (cell entry) (m.loadWord (m.address ⟨base, distance⟩)) m after)
    {row : List α} (distinct : (row.flatMap cell).Nodup) (clear : .gpr base ∉ row.flatMap cell)
    (m : Machine) {words : List Word} (matching : row.length = words.length)
    (holds : m.memory.load (m.gpr base) (8 * words.length) = words.flatMap Word.bytes) :
    ∃ after, Leads (row.mapIdx fun i entry => code entry ⟨base, 8 * i⟩).flatten m after ∧
      (∀ i, (inside : i < row.length) → ∀ target ∈ cell row[i],
        words[i]? = some (after.word target)) ∧
      (∀ target, target ∉ row.flatMap cell → after.word target = m.word target) ∧
      after.memory = m.memory := by
  obtain ⟨after, runs, filled, kept, memory⟩ := row_leads step distinct clear 0 m
  refine ⟨after, runs, ?_, kept, memory⟩
  intro i inside target member
  have within : i < words.length := by omega
  rw [filled i inside target member, List.getElem?_eq_getElem within, Nat.add_zero,
    Machine.loadWord, Memory.loadWord_of_words holds i within]

/-- All of one cell's targets in each position: what is read there is the row of words. -/
theorem map_word {row : List α} {words : List Word} {after : Machine} (pick : α → Target)
    (own : ∀ entry, pick entry ∈ cell entry) (matching : row.length = words.length)
    (filled : ∀ i, (inside : i < row.length) → ∀ target ∈ cell row[i],
      words[i]? = some (after.word target)) :
    row.map (fun entry => after.word (pick entry)) = words := by
  apply List.ext_getElem (by simpa using matching)
  intro i inside within
  rw [List.length_map] at inside
  have found := filled i inside (pick row[i]) (own _)
  rw [List.getElem?_eq_getElem within] at found
  rw [List.getElem_map, Option.some.inj found]

end ForeignCall.X64

namespace ForeignCall.Trampoline

open X64

theorem bytes_flatMap_length (words : List Word) :
    (words.flatMap Word.bytes).length = 8 * words.length := by
  induction words with
  | nil => rfl
  | cons word rest ih =>
    rw [List.flatMap_cons, List.length_append, ih, Word.bytes_length, List.length_cons]
    omega

theorem load_fills (base : Gpr) (register : Gpr) (distance : Int) (m : Machine) :
    ∃ after, Leads [.load register ⟨base, distance⟩] m after ∧
      Filled [.gpr register] (m.loadWord (m.address ⟨base, distance⟩)) m after := by
  refine ⟨_, .single rfl, ?_, ?_, rfl⟩
  · intro target member
    rw [List.mem_singleton.mp member]
    simp [Machine.word, Machine.loadWord, Machine.address]
  · rintro (other | x) outside
    · simp only [List.mem_singleton, Target.gpr.injEq] at outside
      simp [Machine.word, outside]
    · rfl

theorem loadXmm_fills (base : Gpr) (register : Xmm) (distance : Int) (m : Machine) :
    ∃ after, Leads [.loadXmm register ⟨base, distance⟩] m after ∧
      Filled [.xmm register] (m.loadWord (m.address ⟨base, distance⟩)) m after := by
  refine ⟨_, .single rfl, ?_, ?_, rfl⟩
  · intro target member
    rw [List.mem_singleton.mp member]
    simp [Machine.word, Machine.loadWord, Machine.address]
  · rintro (r | other) outside
    · rfl
    · simp only [List.mem_singleton, Target.xmm.injEq] at outside
      simp [Machine.word, Machine.lowXmm, Machine.setXmm, outside]

theorem position_fills (base : Gpr) (position : Gpr × Xmm) (distance : Int) (m : Machine) :
    ∃ after, Leads [.load position.1 ⟨base, distance⟩, .moveXmm position.2 position.1] m after ∧
      Filled [.gpr position.1, .xmm position.2] (m.loadWord (m.address ⟨base, distance⟩)) m
        after := by
  obtain ⟨gpr, xmm⟩ := position
  obtain ⟨middle, first, loaded⟩ := load_fills base gpr distance m
  have word : middle.gpr gpr = m.loadWord (m.address ⟨base, distance⟩) :=
    loaded.filled (.gpr gpr) List.mem_cons_self
  refine ⟨_, first.append (.single rfl), ?_, ?_, loaded.memory⟩
  · intro target member
    simp only [List.mem_cons, List.not_mem_nil, or_false] at member
    rcases member with rfl | rfl
    · exact word
    · rw [← word]
      simp [Machine.word, Machine.lowXmm, Machine.setXmm]
  · rintro (other | other) outside
    · exact loaded.kept (.gpr other) (by simp_all)
    · rw [← loaded.kept (.xmm other) (by simp)]
      simp only [List.mem_cons, Target.xmm.injEq, not_or] at outside
      simp [Machine.word, Machine.lowXmm, Machine.setXmm, outside]

theorem flatten_mapIdx_singleton {α β : Type} (f : Nat → α → β) (row : List α) :
    (row.mapIdx fun i entry => [f i entry]).flatten = row.mapIdx f := by
  induction row generalizing f with
  | nil => rfl
  | cons entry rest ih => simp only [List.mapIdx_cons, List.flatten_cons, ih, List.singleton_append]

theorem loadRow_leads {base : Gpr} {targets : List Gpr} (distinct : targets.Nodup)
    (clear : base ∉ targets) (m : Machine) {words : List Word}
    (matching : targets.length = words.length)
    (holds : m.memory.load (m.gpr base) (8 * words.length) = words.flatMap Word.bytes) :
    ∃ after, Leads (loadRow base targets) m after ∧ targets.map after.gpr = words ∧
      (∀ register, register ∉ targets → after.gpr register = m.gpr register) ∧
      after.lowXmm = m.lowXmm ∧ after.memory = m.memory := by
  have cells : (targets.flatMap fun register => [Target.gpr register]) = targets.map .gpr :=
    List.map_eq_flatMap.symm
  obtain ⟨after, runs, filled, kept, memory⟩ :=
    @row_words Gpr (fun register place => [.load register place]) (fun register => [.gpr register])
      base (load_fills base) targets
      (by rw [cells]; simpa [List.Nodup, List.pairwise_map] using distinct)
      (by rw [cells]; simpa using clear) m words matching holds
  rw [flatten_mapIdx_singleton] at runs
  rw [cells] at kept
  refine ⟨after, runs, map_word .gpr (fun _ => List.mem_cons_self) matching filled, ?_, ?_, memory⟩
  · intro register outside
    exact kept (.gpr register) (by simpa using outside)
  · funext x
    exact kept (.xmm x) (by simp)

theorem loadXmmRow_leads {base : Gpr} {targets : List Xmm} (distinct : targets.Nodup) (m : Machine)
    {words : List Word} (matching : targets.length = words.length)
    (holds : m.memory.load (m.gpr base) (8 * words.length) = words.flatMap Word.bytes) :
    ∃ after, Leads (loadXmmRow base targets) m after ∧ targets.map after.lowXmm = words ∧
      after.gpr = m.gpr ∧ after.memory = m.memory := by
  have cells : (targets.flatMap fun register => [Target.xmm register]) = targets.map .xmm :=
    List.map_eq_flatMap.symm
  obtain ⟨after, runs, filled, kept, memory⟩ :=
    @row_words Xmm (fun register place => [.loadXmm register place])
      (fun register => [.xmm register]) base (loadXmm_fills base) targets
      (by rw [cells]; simpa [List.Nodup, List.pairwise_map] using distinct)
      (by rw [cells]; simp) m words matching holds
  rw [flatten_mapIdx_singleton] at runs
  rw [cells] at kept
  refine ⟨after, runs, map_word .xmm (fun _ => List.mem_cons_self) matching filled, ?_, memory⟩
  funext register
  exact kept (.gpr register) (by simp)

/-- The integer and the vector register of each position receive the same word. -/
theorem positions_leads (m : Machine) {words : List Word} (matching : win64Positions.length = words.length)
    (holds : m.memory.load (m.gpr .r12) (8 * words.length) = words.flatMap Word.bytes) :
    ∃ after, Leads (win64Positions.mapIdx fun i position =>
        [.load position.1 ⟨.r12, 8 * i⟩, .moveXmm position.2 position.1]).flatten m after ∧
      [.rcx, .rdx, .r8, .r9].map after.gpr = words ∧ [0, 1, 2, 3].map after.lowXmm = words ∧
      (∀ register, register ∉ [.rcx, .rdx, .r8, .r9] → after.gpr register = m.gpr register) ∧
      after.memory = m.memory := by
  obtain ⟨after, runs, filled, kept, memory⟩ :=
    @row_words (Gpr × Xmm)
      (fun position place => [.load position.1 place, .moveXmm position.2 position.1])
      (fun position => [.gpr position.1, .xmm position.2]) .r12 (position_fills .r12)
      win64Positions (by decide) (by decide) m words matching holds
  refine ⟨after, runs, ?_, ?_, ?_, memory⟩
  · have own (position : Gpr × Xmm) :
        .gpr position.1 ∈ [Target.gpr position.1, .xmm position.2] := List.mem_cons_self
    exact map_word _ own matching filled
  · have own (position : Gpr × Xmm) :
        .xmm position.2 ∈ [Target.gpr position.1, .xmm position.2] :=
      List.mem_cons_of_mem _ List.mem_cons_self
    exact map_word _ own matching filled
  · intro register outside
    refine kept (.gpr register) ?_
    simpa [win64Positions] using outside

end ForeignCall.Trampoline
