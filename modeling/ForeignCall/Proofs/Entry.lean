import ForeignCall.Invocation
import ForeignCall.Proofs.Prelude
import ForeignCall.Proofs.Rows

/-! Entry. What a trampoline may expect of the machine it is entered with: the parameters in their
registers, the blocks that they point to out of the way of the stack, and the stack aligned. -/
namespace ForeignCall

open X64 Trampoline

/-- Bytes below the stack pointer that an ordinary trampoline uses for `n` stack bytes. -/
def RegisterFile.stackDepth (file : RegisterFile) (n : Nat) : Nat :=
  match file with
  | separate .. => preludeBytes n
  | shared _ => preludeBytes n + shadowBytes

/-- The blocks that the parameters of an ordinary trampoline point to, and what is in them. -/
def ArgumentArea.blocks (area : ArgumentArea) (site : CallSite) : List (Word × List Byte) :=
  [(site.stackData, area.stack.bytes),
    (site.integerSlots, (area.registers.slots .integer).flatMap Word.bytes)] ++
  match area.registers with
  | .separate .. => [(site.floatSlots, (area.registers.slots .float).flatMap Word.bytes)]
  | .shared _ => []

/-- A machine that has just been called as the signature of the area's trampoline says. -/
structure Entered (area : ArgumentArea) (site : CallSite) (target : Word) (m : Machine) :
    Prop where
  parameters : ∀ parameter ∈ area.registers.parameters site area.stack.bytes.length target,
    m.gpr parameter.1 = parameter.2
  aligned : (m.gpr .rsp).toNat % 16 = 8
  upward : m.direction = false
  holds : ∀ block ∈ area.blocks site, m.memory.load block.1 block.2.length = block.2
  apart : ∀ block ∈ area.blocks site, Apart block.1 block.2.length
    (m.gpr .rsp - BitVec.ofNat 64 (area.registers.stackDepth area.stack.bytes.length))
    (area.registers.stackDepth area.stack.bytes.length)

/-- A machine that has just been called as the signature of the system trampoline says. -/
structure SystemEntered (integers : SlotRow integerSlots) (site : CallSite) (number : Word)
    (m : Machine) : Prop where
  parameters : ∀ parameter ∈ [(.rdi, site.integerSlots), (.rsi, number), (.rdx, site.results)],
    m.gpr parameter.1 = parameter.2
  holds : m.memory.load site.integerSlots 48 = integers.slots.toList.flatMap Word.bytes
  apart : Apart site.integerSlots 48 (m.gpr .rsp - BitVec.ofNat 64 8) 8

namespace Entered

variable {area : ArgumentArea} {site : CallSite} {target : Word} {m : Machine}

theorem apart_prelude (entered : Entered area site target m)
    (short : area.stack.bytes.length < 2 ^ 63) {block : Word × List Byte}
    (member : block ∈ area.blocks site) : Apart block.1 block.2.length
      (m.gpr .rsp - BitVec.ofNat 64 (preludeBytes area.stack.bytes.length))
      (preludeBytes area.stack.bytes.length) := by
  obtain ⟨-, bounded, -⟩ := preludeBytes_bounds area.stack.bytes.length
  have apart := entered.apart block member
  cases shape : area.registers with
  | separate integers floats =>
    rw [shape] at apart
    exact apart
  | shared row =>
    rw [shape, RegisterFile.stackDepth, shadowBytes] at apart
    rw [sub_eq_add (m.gpr .rsp) (Nat.le_add_right _ 32)]
    exact (apart.symm.part (by omega) (by omega)).symm

/-- After the prelude the stack bytes are at the stack pointer and the blocks are as they were. -/
theorem prelude (entered : Entered area site target m)
    (short : area.stack.bytes.length < 2 ^ 63) {pairs : List (Gpr × Gpr)}
    (distinct : (pairs.map Prod.fst).Nodup)
    (targets : ∀ target ∈ pairs.map Prod.fst, target ∈ [.rbx, .r10, .r11, .r12])
    (sources : ∀ source ∈ pairs.map Prod.snd, source ∈ [.rdx, .rcx, .r8, .r9]) :
    ∃ ready, Leads (opening ++ moves pairs ++ copyStack) m ready ∧ Opened m ready ∧
      (∀ register source word, (register, source) ∈ pairs →
        (source, word) ∈ area.registers.parameters site area.stack.bytes.length target →
        ready.gpr register = word) ∧
      ready.gpr .rsp = m.gpr .rsp - BitVec.ofNat 64 (preludeBytes area.stack.bytes.length) ∧
      ready.memory.load (ready.gpr .rsp) area.stack.bytes.length = area.stack.bytes ∧
      Confined (m.gpr .rsp - BitVec.ofNat 64 (preludeBytes area.stack.bytes.length))
        (preludeBytes area.stack.bytes.length) m.memory ready.memory ∧
      ∀ block ∈ area.blocks site, ready.memory.load block.1 block.2.length = block.2 := by
  have rdi : m.gpr .rdi = BitVec.ofNat 64 area.stack.bytes.length :=
    entered.parameters (.rdi, _) List.mem_cons_self
  have rsi : m.gpr .rsi = site.stackData :=
    entered.parameters (.rsi, _) (List.mem_cons_of_mem _ List.mem_cons_self)
  have stack : (site.stackData, area.stack.bytes) ∈ area.blocks site := List.mem_cons_self
  obtain ⟨ready, runs, opened, moved, rsp, memory⟩ := prelude_leads distinct targets sources m rdi
    short entered.upward (by rw [rsi]; exact entered.holds _ stack)
    (by rw [rsi]; exact entered.apart_prelude short stack)
  refine ⟨ready, runs, opened, ?_, rsp, ?_, ?_, ?_⟩
  · intro register source word pair parameter
    rw [moved (register, source) pair, entered.parameters (source, word) parameter]
  · rw [memory, rsp, filled_load m short]
  · rw [memory]
    exact filled_confined m short
  · intro block member
    rw [memory, Memory.load_confined (filled_confined m short) (entered.apart_prelude short member),
      entered.holds block member]

end Entered

/-! The machines of invocations are entered so. -/

theorem RegisterFile.slots_length_le (file : RegisterFile) (kind : RegisterClass) :
    (file.slots kind).length ≤ 8 := by
  cases file <;> cases kind <;> simp only [slots, Vector.length_toList] <;> decide

namespace ArgumentArea

/-- All that an invocation puts into memory beforehand. -/
def laidOut (area : ArgumentArea) (site : CallSite) : List (Word × List Byte) :=
  [(site.stackData, area.stack.bytes),
    (site.floatSlots, (area.registers.slots .float).flatMap Word.bytes),
    (site.integerSlots, (area.registers.slots .integer).flatMap Word.bytes),
    (site.results, ReturnRegisters.zero.bytes), (site.stackTop, site.returnTo.bytes)]

theorem layOut_eq (area : ArgumentArea) (site : CallSite) :
    area.layOut site = Memory.storeAll (fun _ => 0) (area.laidOut site) := rfl

theorem mem_blocks {area : ArgumentArea} {site : CallSite} {block : Word × List Byte}
    (member : block ∈ area.blocks site) : block = (site.stackData, area.stack.bytes) ∨
      block = (site.integerSlots, (area.registers.slots .integer).flatMap Word.bytes) ∨
      block = (site.floatSlots, (area.registers.slots .float).flatMap Word.bytes) := by
  rcases List.mem_append.mp member with fixed | float
  · simp only [List.mem_cons, List.not_mem_nil, or_false] at fixed
    rcases fixed with stack | integers
    · exact .inl stack
    · exact .inr (.inl integers)
  · split at float
    · exact .inr (.inr (List.mem_singleton.mp float))
    · cases float

theorem blocks_subset (area : ArgumentArea) (site : CallSite) :
    area.blocks site ⊆ area.laidOut site := by
  intro block member
  rcases mem_blocks member with rfl | rfl | rfl <;> simp [laidOut]

theorem laidOut_apart (area : ArgumentArea) (short : area.stack.bytes.length < 2 ^ 63) :
    (area.laidOut .spread).Pairwise fun a b => Apart a.1 a.2.length b.1 b.2.length := by
  have integers := bytes_flatMap_length (area.registers.slots .integer)
  have floats := bytes_flatMap_length (area.registers.slots .float)
  have few := area.registers.slots_length_le .integer
  have fewer := area.registers.slots_length_le .float
  have zero : ReturnRegisters.zero.bytes.length = 32 := rfl
  have back := Word.bytes_length CallSite.spread.returnTo
  have first : CallSite.spread.integerSlots.toNat = 0x20000 := rfl
  have second : CallSite.spread.floatSlots.toNat = 0x30000 := rfl
  have third : CallSite.spread.results.toNat = 0x40000 := rfl
  have fourth : CallSite.spread.stackTop.toNat = 0x7ffffff8 := rfl
  have fifth : CallSite.spread.stackData.toNat = 0x100000000 := rfl
  simp only [laidOut, List.pairwise_cons, List.forall_mem_cons]
  refine ⟨⟨?_, ?_, ?_, ?_, nofun⟩, ⟨?_, ?_, ?_, nofun⟩, ⟨?_, ?_, nofun⟩, ⟨?_, nofun⟩, nofun, .nil⟩
  all_goals first
    | exact Apart.of_toNat (by omega) (by omega)
    | exact (Apart.of_toNat (by omega) (by omega)).symm

theorem layOut_load {area : ArgumentArea} (short : area.stack.bytes.length < 2 ^ 63)
    {block : Word × List Byte} (small : block.2.length ≤ 2 ^ 64)
    (listed : block ∈ area.laidOut .spread) :
    (area.layOut .spread).load block.1 block.2.length = block.2 := by
  rw [layOut_eq]
  exact Memory.storeAll_load _ (area.laidOut_apart short) small listed

theorem blocks_place (area : ArgumentArea) {block : Word × List Byte}
    (member : block ∈ area.blocks .spread) : block.1.toNat + block.2.length ≤ 0x40000 ∨
      block.1.toNat = 0x100000000 ∧ block.2.length = area.stack.bytes.length := by
  have integers := bytes_flatMap_length (area.registers.slots .integer)
  have floats := bytes_flatMap_length (area.registers.slots .float)
  have few := area.registers.slots_length_le .integer
  have fewer := area.registers.slots_length_le .float
  have first : CallSite.spread.integerSlots.toNat = 0x20000 := rfl
  have second : CallSite.spread.floatSlots.toNat = 0x30000 := rfl
  rcases mem_blocks member with rfl | rfl | rfl
  · exact .inr ⟨rfl, rfl⟩
  · exact .inl (by dsimp only; omega)
  · exact .inl (by dsimp only; omega)

end ArgumentArea

/-- Any area is delivered from the memory that an invocation prepares for it. -/
theorem Entered.of_machine (area : ArgumentArea) (target : Word)
    (small : area.stack.bytes.length < 0x70000000) :
    Entered area .spread target (area.machine .spread
      (area.registers.parameters .spread area.stack.bytes.length target)) where
  parameters := by
    intro parameter member
    obtain ⟨registers, stack⟩ := area
    cases registers <;>
      simp only [RegisterFile.parameters, List.cons_append, List.nil_append, List.mem_cons,
        List.not_mem_nil, or_false] at member
    · rcases member with rfl | rfl | rfl | rfl | rfl | rfl <;> rfl
    · rcases member with rfl | rfl | rfl | rfl | rfl <;> rfl
  aligned := show CallSite.spread.stackTop.toNat % 16 = 8 from rfl
  upward := rfl
  holds := by
    intro block member
    have place := area.blocks_place member
    exact area.layOut_load (by omega) (by omega) (area.blocks_subset .spread member)
  apart := by
    intro block member
    have place := area.blocks_place member
    have deep : area.registers.stackDepth area.stack.bytes.length ≤ 0x70000047 := by
      have bounds := preludeBytes_bounds area.stack.bytes.length
      cases area.registers <;> simp only [RegisterFile.stackDepth, shadowBytes] <;> omega
    have top : CallSite.spread.stackTop.toNat = 0x7ffffff8 := rfl
    have floor : (CallSite.spread.stackTop - BitVec.ofNat 64
        (area.registers.stackDepth area.stack.bytes.length)).toNat =
        0x7ffffff8 - area.registers.stackDepth area.stack.bytes.length := by
      rw [BitVec.toNat_sub, BitVec.toNat_ofNat, top]
      omega
    show Apart block.1 block.2.length (CallSite.spread.stackTop - _) _
    rcases place with low | ⟨start, size⟩
    · exact .of_toNat (by omega) (by omega)
    · exact (Apart.of_toNat (by omega) (by omega)).symm

theorem SystemEntered.of_machine (integers : SlotRow integerSlots) (floats : SlotRow floatSlots)
    (stack : ArgumentStack) (number : Word) (short : stack.bytes.length < 2 ^ 63) :
    SystemEntered integers .spread number
      (ArgumentArea.machine ⟨.separate integers floats, stack⟩ .spread
        [(.rdi, CallSite.spread.integerSlots), (.rsi, number), (.rdx, CallSite.spread.results)])
    where
  parameters := by
    intro parameter member
    simp only [List.mem_cons, List.not_mem_nil, or_false] at member
    rcases member with rfl | rfl | rfl <;> rfl
  holds := by
    have listed : (CallSite.spread.integerSlots, integers.slots.toList.flatMap Word.bytes) ∈
        ArgumentArea.laidOut ⟨.separate integers floats, stack⟩ .spread :=
      List.mem_cons_of_mem _ (List.mem_cons_of_mem _ List.mem_cons_self)
    have size : (integers.slots.toList.flatMap Word.bytes).length = 48 := by
      rw [bytes_flatMap_length, Vector.length_toList, integerSlots]
    have found := ArgumentArea.layOut_load short (show _ ≤ 2 ^ 64 by rw [size]; decide) listed
    rw [size] at found
    exact found
  apart := by
    have below : CallSite.spread.integerSlots.toNat + 48 ≤ (CallSite.spread.stackTop - 8).toNat ∧
        (CallSite.spread.stackTop - 8).toNat + 8 ≤ 2 ^ 64 := by decide
    exact .of_toNat below.1 below.2

def ArgumentArea.packed : ArgumentArea :=
  ⟨.separate ⟨#v[1, 2, 3, 4, 5, 6], 6⟩ ⟨#v[10, 11, 12, 13, 14, 15, 16, 17], 8⟩,
    ⟨List.replicate 20 0x5a, 0, false⟩⟩

def packedEntry : Machine := ArgumentArea.packed.machine .spread
  (ArgumentArea.packed.registers.parameters .spread 20 0x1234)

def packedSystemEntry (number : Word) : Machine := ArgumentArea.packed.machine .spread
  [(.rdi, CallSite.spread.integerSlots), (.rsi, number), (.rdx, CallSite.spread.results)]

end ForeignCall
