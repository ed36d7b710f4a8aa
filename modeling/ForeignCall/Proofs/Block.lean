import ForeignCall.Proofs.Digits
import ForeignCall.X64.Memory

/-! Blocks of memory. A block is a start and a size; addresses wrap, and so may blocks. Writes inside
one block leave every block apart from it as it was. -/
namespace ForeignCall.X64

/-- The address is one of the `size` addresses from `start` on. -/
def Inside (start : Word) (size : Nat) (place : Word) : Prop := (place - start).toNat < size

/-- No address is in both blocks. -/
def Apart (start : Word) (size : Nat) (other : Word) (count : Nat) : Prop :=
  ∀ place, Inside start size place → ¬ Inside other count place

/-- Nothing is written outside of the block. -/
def Confined (start : Word) (size : Nat) (before after : Memory) : Prop :=
  ∀ place, ¬ Inside start size place → after place = before place

theorem toNat_sub_add (place start : Word) (distance : Nat) :
    (place - start).toNat =
      ((place - (start + BitVec.ofNat 64 distance)).toNat + distance) % 2 ^ 64 := by
  have split : place - start =
      place - (start + BitVec.ofNat 64 distance) + BitVec.ofNat 64 distance := by
    rw [← BitVec.sub_sub, BitVec.sub_add_cancel]
  rw [split, BitVec.toNat_add, BitVec.toNat_ofNat]
  omega

theorem sub_eq_add (top : Word) {near far : Nat} (ordered : near ≤ far) :
    top - BitVec.ofNat 64 near =
      top - BitVec.ofNat 64 far + BitVec.ofNat 64 (far - near) := by
  have whole : far = near + (far - near) := by omega
  rw [whole, BitVec.ofNat_add, ← BitVec.sub_sub, Nat.add_sub_cancel_left, BitVec.sub_add_cancel]

theorem sub_add_sum (top : Word) (down beyond : Nat) :
    top - BitVec.ofNat 64 down + BitVec.ofNat 64 (down + beyond) =
      top + BitVec.ofNat 64 beyond := by
  rw [BitVec.ofNat_add, ← BitVec.add_assoc, BitVec.sub_add_cancel]

theorem Inside.widen {start place : Word} {distance part size : Nat}
    (inside : Inside (start + BitVec.ofNat 64 distance) part place)
    (within : distance + part ≤ size) (small : size ≤ 2 ^ 64) : Inside start size place := by
  have shifted := toNat_sub_add place start distance
  unfold Inside at inside ⊢
  omega

theorem inside_add (start : Word) {i size : Nat} (inside : i < size) :
    Inside start size (start + BitVec.ofNat 64 i) := by
  unfold Inside
  rw [BitVec.add_comm, BitVec.add_sub_cancel, BitVec.toNat_ofNat]
  exact Nat.lt_of_le_of_lt (Nat.mod_le i _) inside

namespace Apart

theorem symm {start other : Word} {size count : Nat} (apart : Apart start size other count) :
    Apart other count start size :=
  fun place there here => apart place here there

theorem part {start other : Word} {size count distance less : Nat}
    (apart : Apart start size other count) (within : distance + less ≤ size)
    (small : size ≤ 2 ^ 64) : Apart (start + BitVec.ofNat 64 distance) less other count :=
  fun place inside => apart place (inside.widen within small)

theorem shorten {start other : Word} {size count less : Nat}
    (apart : Apart start size other count) (within : less ≤ count) : Apart start size other less :=
  fun place here there => apart place here (Nat.lt_of_lt_of_le there within)

/-- Blocks that do not wrap, one above the other. -/
theorem of_toNat {start other : Word} {size count : Nat}
    (ordered : start.toNat + size ≤ other.toNat) (fits : other.toNat + count ≤ 2 ^ 64) :
    Apart start size other count := by
  intro place here there
  unfold Inside at here there
  rw [BitVec.toNat_sub] at here there
  have bound := place.isLt
  omega

theorem of_le {start : Word} {near size far count : Nat} (ordered : near + size ≤ far)
    (small : far + count ≤ 2 ^ 64) :
    Apart (start + BitVec.ofNat 64 near) size (start + BitVec.ofNat 64 far) count := by
  intro place here there
  have first := toNat_sub_add place start near
  have second := toNat_sub_add place start far
  unfold Inside at here there
  omega

end Apart

namespace Confined

theorem trans {start : Word} {size : Nat} {first second third : Memory}
    (early : Confined start size first second) (late : Confined start size second third) :
    Confined start size first third :=
  fun place outside => (late place outside).trans (early place outside)

theorem store (memory : Memory) {start : Word} {distance size : Nat} {bytes : List Byte}
    (within : distance + bytes.length ≤ size) (small : size ≤ 2 ^ 64) :
    Confined start size memory (memory.store (start + BitVec.ofNat 64 distance) bytes) := by
  intro place outside
  apply Memory.store_outside
  apply Nat.le_of_not_lt
  intro inside
  exact outside (Inside.widen inside within small)

end Confined

namespace Memory

theorem store_inside (memory : Memory) (address : Word) (bytes : List Byte) {i : Nat}
    (inside : i < bytes.length) (fits : bytes.length ≤ 2 ^ 64) :
    memory.store address bytes (address + BitVec.ofNat 64 i) = bytes[i] := by
  have distance : (address + BitVec.ofNat 64 i - address).toNat = i := by
    rw [BitVec.add_comm, BitVec.add_sub_cancel]
    simp only [BitVec.toNat_ofNat]
    omega
  simp only [store, distance, List.getElem?_eq_getElem inside]

theorem load_store (memory : Memory) (address : Word) (bytes : List Byte)
    (fits : bytes.length ≤ 2 ^ 64) :
    (memory.store address bytes).load address bytes.length = bytes := by
  apply List.ext_getElem (by simp)
  intro i _ inside
  simp [load, store_inside memory address bytes inside fits]

theorem loadWord_storeWord (memory : Memory) (address word : Word) :
    (memory.storeWord address word).loadWord address = word := by
  have same := load_store memory address word.bytes (by simp)
  rw [Word.bytes_length] at same
  rw [loadWord, storeWord, same, Word.ofBytes_bytes]

theorem load_congr {before after : Memory} {address : Word} {count : Nat}
    (same : ∀ place, Inside address count place → after place = before place) :
    after.load address count = before.load address count := by
  apply List.map_congr_left
  intro i member
  exact same _ (inside_add address (List.mem_range.mp member))

theorem load_confined {before after : Memory} {start block : Word} {size count : Nat}
    (writes : Confined start size before after) (apart : Apart block count start size) :
    after.load block count = before.load block count :=
  load_congr fun place inside => writes place (apart place inside)

theorem load_store_apart (memory : Memory) {address block : Word} {bytes : List Byte} {count : Nat}
    (apart : Apart block count address bytes.length) :
    (memory.store address bytes).load block count = memory.load block count :=
  load_congr fun place inside =>
    memory.store_outside address place bytes (Nat.le_of_not_lt (apart place inside))

theorem load_append (memory : Memory) (address : Word) (first second : Nat) :
    memory.load address (first + second) =
      memory.load address first ++ memory.load (address + BitVec.ofNat 64 first) second := by
  simp only [load, List.range_add, List.map_append, List.map_map]
  congr 1
  apply List.map_congr_left
  intro i _
  simp only [Function.comp_apply, BitVec.ofNat_add, BitVec.add_assoc]

theorem store_append (memory : Memory) (address : Word) (first second : List Byte)
    (small : first.length + second.length ≤ 2 ^ 64) :
    (memory.store address first).store (address + BitVec.ofNat 64 first.length) second =
      memory.store address (first ++ second) := by
  funext place
  have shifted := toNat_sub_add place address first.length
  have bound := (place - (address + BitVec.ofNat 64 first.length)).isLt
  by_cases early : (place - address).toNat < first.length
  · rw [store_outside _ _ _ second (by omega), store, store, List.getElem?_append_left early]
  · by_cases late : (place - (address + BitVec.ofNat 64 first.length)).toNat < second.length
    · have distance : (place - address).toNat - first.length =
          (place - (address + BitVec.ofNat 64 first.length)).toNat := by omega
      simp only [store, List.getElem?_append_right (Nat.le_of_not_lt early), distance,
        List.getElem?_eq_getElem late]
    · rw [store_outside _ _ _ second (by omega), store_outside _ _ _ first (by omega),
        store_outside _ _ _ (first ++ second) (by rw [List.length_append]; omega)]

def storeAll (memory : Memory) (blocks : List (Word × List Byte)) : Memory :=
  blocks.foldl (fun stored block => stored.store block.1 block.2) memory

theorem storeAll_apart (memory : Memory) {start : Word} {count : Nat}
    {blocks : List (Word × List Byte)}
    (apart : ∀ block ∈ blocks, Apart start count block.1 block.2.length) :
    (storeAll memory blocks).load start count = memory.load start count := by
  induction blocks generalizing memory with
  | nil => rfl
  | cons block rest ih =>
    obtain ⟨own, others⟩ := List.forall_mem_cons.mp apart
    exact (ih _ others).trans (memory.load_store_apart own)

theorem storeAll_load (memory : Memory) {blocks : List (Word × List Byte)}
    (apart : blocks.Pairwise fun a b => Apart a.1 a.2.length b.1 b.2.length)
    {block : Word × List Byte} (small : block.2.length ≤ 2 ^ 64) (member : block ∈ blocks) :
    (storeAll memory blocks).load block.1 block.2.length = block.2 := by
  induction blocks generalizing memory with
  | nil => cases member
  | cons first rest ih =>
    obtain ⟨own, others⟩ := List.pairwise_cons.mp apart
    rcases List.mem_cons.mp member with rfl | later
    · exact (storeAll_apart _ own).trans (memory.load_store _ _ small)
    · exact ih _ others later

theorem store_storeWord (memory : Memory) (address : Word) (bytes : List Byte) (word : Word)
    {distance : Nat} (length : bytes.length = distance) (small : distance + 8 ≤ 2 ^ 64) :
    (memory.store address bytes).storeWord (address + BitVec.ofNat 64 distance) word =
      memory.store address (bytes ++ word.bytes) := by
  rw [← length, storeWord, store_append _ _ _ _ (by rw [Word.bytes_length, length]; exact small)]

theorem loadWord_of_load {memory : Memory} {address word : Word}
    (holds : memory.load address 8 = word.bytes) : memory.loadWord address = word := by
  rw [loadWord, holds, Word.ofBytes_bytes]

theorem bytes_loadWord (memory : Memory) (address : Word) :
    (memory.loadWord address).bytes = memory.load address 8 := by
  have whole := Word.bytes_ofBytes (memory.load address 8) (by simp [slotBytes])
  rw [load_length, slotBytes, Nat.sub_self, List.replicate_zero, List.append_nil] at whole
  exact whole

/-- A word that is stored just below a block makes the block longer. -/
theorem load_storeWord_below (memory : Memory) (address word : Word) {count : Nat}
    (small : 8 + count ≤ 2 ^ 64) : (memory.storeWord address word).load address (8 + count) =
      word.bytes ++ memory.load (address + BitVec.ofNat 64 8) count := by
  have stored := load_store memory address word.bytes (by simp)
  have above : Apart (address + BitVec.ofNat 64 8) count address word.bytes.length := by
    have below : Apart (address + BitVec.ofNat 64 0) 8 (address + BitVec.ofNat 64 8) count :=
      Apart.of_le (by omega) small
    rw [BitVec.add_zero] at below
    rw [Word.bytes_length]
    exact below.symm
  rw [Word.bytes_length] at stored
  rw [load_append, storeWord, stored, load_store_apart memory above]

theorem loadWord_of_words {memory : Memory} {address : Word} {words : List Word}
    (holds : memory.load address (8 * words.length) = words.flatMap Word.bytes) (i : Nat)
    (inside : i < words.length) :
    memory.loadWord (address + BitVec.ofNat 64 (8 * i)) = words[i] := by
  induction words generalizing address i with
  | nil => cases inside
  | cons word rest ih =>
    have layers : 8 * (word :: rest).length = 8 + 8 * rest.length := by
      rw [List.length_cons]
      omega
    rw [layers, load_append, List.flatMap_cons] at holds
    -- The first word is in the first eight bytes, and the others lie eight addresses further up.
    obtain ⟨first, others⟩ := List.append_inj holds (by simp)
    cases i with
    | zero =>
      rw [Nat.mul_zero, BitVec.add_zero]
      exact loadWord_of_load first
    | succ i =>
      have further : address + BitVec.ofNat 64 (8 * (i + 1)) =
          address + BitVec.ofNat 64 8 + BitVec.ofNat 64 (8 * i) := by
        rw [BitVec.add_assoc, ← BitVec.ofNat_add, Nat.mul_succ, Nat.add_comm]
      rw [further]
      exact ih others i (Nat.lt_of_succ_lt_succ inside)

end Memory
end ForeignCall.X64
