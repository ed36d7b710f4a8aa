import ForeignCall.Bytes

/-! Byte-addressed memory over the whole 64-bit address space. Addresses wrap. -/
namespace ForeignCall.X64

abbrev Memory := Word → Byte

namespace Memory

def put (memory : Memory) (address : Word) (byte : Byte) : Memory :=
  fun place => if place = address then byte else memory place

def store (memory : Memory) (address : Word) (bytes : List Byte) : Memory :=
  fun place =>
    match bytes[(place - address).toNat]? with
    | some byte => byte
    | none => memory place

def load (memory : Memory) (address : Word) (count : Nat) : List Byte :=
  (List.range count).map fun i => memory (address + BitVec.ofNat 64 i)

def storeWord (memory : Memory) (address word : Word) : Memory := memory.store address word.bytes

def loadWord (memory : Memory) (address : Word) : Word := Word.ofBytes (memory.load address 8)

@[simp] theorem load_length (memory : Memory) (address : Word) (count : Nat) :
    (memory.load address count).length = count := by simp [load]

theorem store_outside (memory : Memory) (address place : Word) (bytes : List Byte)
    (outside : bytes.length ≤ (place - address).toNat) :
    memory.store address bytes place = memory place := by
  rw [store, List.getElem?_eq_none outside]

theorem store_singleton (memory : Memory) (address : Word) (byte : Byte) :
    memory.store address [byte] = memory.put address byte := by
  funext place
  by_cases here : place = address
  · simp [store, put, here]
  · have apart : 1 ≤ (place - address).toNat := by
      rw [Nat.one_le_iff_ne_zero]
      intro zero
      apply here
      have same : place - address = 0#64 := BitVec.eq_of_toNat_eq zero
      rw [← BitVec.sub_add_cancel place address, same, BitVec.zero_add]
    rw [store_outside memory address place [byte] apart, put, if_neg here]

end Memory
end ForeignCall.X64
