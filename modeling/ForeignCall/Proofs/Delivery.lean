import ForeignCall.Proofs.Entry

/-! Delivery. A trampoline that is entered with the sizes and addresses of an argument area's blocks
reaches its call with every stack byte and every slot where the callee's convention expects it. -/
namespace ForeignCall

open X64 Trampoline

/-- What a callee of the register file's convention must find at the call. -/
def RegisterFile.Delivered (file : RegisterFile) (stack : List Byte) (m : Machine) : Prop :=
  match file with
  | separate integers floats =>
    m.memory.load (m.gpr .rsp) stack.length = stack ∧
      [.rdi, .rsi, .rdx, .rcx, .r8, .r9].map m.gpr = integers.slots.toList ∧
      [0, 1, 2, 3, 4, 5, 6, 7].map m.lowXmm = floats.slots.toList ∧ m.gpr .rax = 8
  | shared row =>
    m.memory.load (m.gpr .rsp + 32) stack.length = stack ∧
      [.rcx, .rdx, .r8, .r9].map m.gpr = row.slots.toList ∧
      [0, 1, 2, 3].map m.lowXmm = row.slots.toList

/-- A trampoline that was entered as `m`, about to call: everything is delivered, the frame is open,
and nothing but the stack below has been written. -/
structure AtCall (area : ArgumentArea) (site : CallSite) (m call : Machine) : Prop where
  aligned : (call.gpr .rsp).toNat % 16 = 0
  delivered : area.registers.Delivered area.stack.bytes call
  opened : Opened m call
  results : call.gpr .rbx = site.results
  confined : Confined (m.gpr .rsp - BitVec.ofNat 64 (preludeBytes area.stack.bytes.length))
    (preludeBytes area.stack.bytes.length) m.memory call.memory

namespace Trampoline

def sysvMoves : List (Gpr × Gpr) := [(.rbx, .r9), (.r11, .r8), (.r10, .rcx), (.r12, .rdx)]
def win64Moves : List (Gpr × Gpr) := [(.rbx, .r8), (.r11, .rcx), (.r12, .rdx)]

theorem sysv_eq : sysv = (opening ++ moves sysvMoves ++ copyStack) ++
    (loadXmmRow .r10 sysvFloats ++
      (loadRow .r12 sysvIntegers ++ ([.moveLow .rax 8] ++ .call .r11 :: closing))) := rfl

theorem win64_eq : win64 = (opening ++ moves win64Moves ++ copyStack) ++
    ([.aluImm .sub .rsp shadowBytes] ++
      ((win64Positions.mapIdx fun i position =>
          [.load position.1 ⟨.r12, 8 * i⟩, .moveXmm position.2 position.1]).flatten ++
        .call .r11 :: closing)) := rfl

theorem lower_leads (m : Machine) :
    ∃ after, Leads [.aluImm .sub .rsp shadowBytes] m after ∧
      after.gpr .rsp = m.gpr .rsp - BitVec.ofNat 64 shadowBytes ∧
      (∀ other, other ≠ .rsp → after.gpr other = m.gpr other) ∧ after.memory = m.memory := by
  refine ⟨_, .single rfl, rfl, ?_, rfl⟩
  intro other different
  simp [different]

theorem sub_aligned (word : Word) {n : Nat} (same : word.toNat % 16 = n % 16) :
    (word - BitVec.ofNat 64 n).toNat % 16 = 0 := by
  rw [BitVec.toNat_sub, BitVec.toNat_ofNat]
  omega

end Trampoline

namespace Entered

variable {area : ArgumentArea} {site : CallSite} {target : Word} {m : Machine}

theorem sysv_reaches {integers : SlotRow integerSlots} {floats : SlotRow floatSlots}
    {stack : ArgumentStack} (entered : Entered ⟨.separate integers floats, stack⟩ site target m)
    (short : stack.bytes.length < 2 ^ 63) :
    ∃ after, run sysv m = .call target closing after ∧
      AtCall ⟨.separate integers floats, stack⟩ site m after := by
  obtain ⟨ready, first, opened, moved, rsp, copied, confined, blocks⟩ := entered.prelude short
    (show (sysvMoves.map Prod.fst).Nodup by decide) (by decide) (by decide)
  have rbx : ready.gpr .rbx = site.results :=
    moved .rbx .r9 _ (by decide) (by simp [RegisterFile.parameters])
  have r11 : ready.gpr .r11 = target :=
    moved .r11 .r8 _ (by decide) (by simp [RegisterFile.parameters])
  have r10 : ready.gpr .r10 = site.floatSlots :=
    moved .r10 .rcx _ (by decide) (by simp [RegisterFile.parameters])
  have r12 : ready.gpr .r12 = site.integerSlots :=
    moved .r12 .rdx _ (by decide) (by simp [RegisterFile.parameters])
  have singles : ready.memory.load (ready.gpr .r10) (8 * floats.slots.toList.length) =
      floats.slots.toList.flatMap Word.bytes := by
    rw [r10, ← bytes_flatMap_length]
    exact blocks _ (List.mem_cons_of_mem _ (List.mem_cons_of_mem _ List.mem_cons_self))
  obtain ⟨vectors, second, xmms, gprs, untouched⟩ :=
    loadXmmRow_leads (show sysvFloats.Nodup by decide) ready (by simp [sysvFloats]) singles
  have words : vectors.memory.load (vectors.gpr .r12) (8 * integers.slots.toList.length) =
      integers.slots.toList.flatMap Word.bytes := by
    rw [untouched, gprs, r12, ← bytes_flatMap_length]
    exact blocks _ (List.mem_cons_of_mem _ List.mem_cons_self)
  obtain ⟨loaded, third, integerRow, others, lows, unwritten⟩ :=
    loadRow_leads (show sysvIntegers.Nodup by decide) (by decide) vectors (by simp [sysvIntegers])
      words
  obtain ⟨counted, fourth, rax, rest, same, memory⟩ := moveLow_leads loaded .rax 8
  obtain ⟨after, call, gpr, low, kept⟩ := run_call counted .r11 closing
  have spared {register : Gpr} (other : register ∉ sysvIntegers) (different : register ≠ .rax) :
      after.gpr register = ready.gpr register := by
    rw [gpr, rest register different, others register other, gprs]
  have whole : after.memory = ready.memory := by
    rw [kept, memory, unwritten, untouched]
  have bottom : after.gpr .rsp = ready.gpr .rsp := spared (by decide) (by decide)
  have goal : counted.gpr .r11 = target := by
    rw [← gpr, spared (by decide) (by decide), r11]
  refine ⟨after, ?_, ?_, ⟨?_, ?_, ?_, ?_⟩, opened.onwards ?_ whole, ?_, ?_⟩
  · rw [sysv_eq, first, second, third, fourth, call, goal]
  · rw [bottom, rsp]
    exact sub_aligned _ (by rw [entered.aligned, (preludeBytes_bounds _).2.2])
  · rw [whole, bottom]
    exact copied
  · have own : ∀ register ∈ sysvIntegers, register ≠ .rax := by decide
    refine (List.map_congr_left fun register member => ?_).trans integerRow
    rw [gpr, rest register (own register member)]
  · rw [low, same, lows]
    exact xmms
  · rw [gpr, rax]
    rfl
  · have clear : ∀ r ∈ [Gpr.rbp, .r13, .r14, .r15], r ∉ sysvIntegers ∧ r ≠ .rax := by decide
    exact fun register member => spared (clear register member).1 (clear register member).2
  · rw [spared (by decide) (by decide), rbx]
  · rw [whole]
    exact confined

theorem win64_reaches {row : SlotRow sharedSlots} {stack : ArgumentStack}
    (entered : Entered ⟨.shared row, stack⟩ site target m) (short : stack.bytes.length < 2 ^ 63) :
    ∃ after, run win64 m = .call target closing after ∧
      AtCall ⟨.shared row, stack⟩ site m after := by
  obtain ⟨ready, first, opened, moved, rsp, copied, confined, blocks⟩ := entered.prelude short
    (show (win64Moves.map Prod.fst).Nodup by decide) (by decide) (by decide)
  have rbx : ready.gpr .rbx = site.results :=
    moved .rbx .r8 _ (by decide) (by simp [RegisterFile.parameters])
  have r11 : ready.gpr .r11 = target :=
    moved .r11 .rcx _ (by decide) (by simp [RegisterFile.parameters])
  have r12 : ready.gpr .r12 = site.integerSlots :=
    moved .r12 .rdx _ (by decide) (by simp [RegisterFile.parameters])
  obtain ⟨lowered, second, shadow, others, untouched⟩ := lower_leads ready
  have words : lowered.memory.load (lowered.gpr .r12) (8 * row.slots.toList.length) =
      row.slots.toList.flatMap Word.bytes := by
    rw [untouched, others .r12 (by decide), r12, ← bytes_flatMap_length]
    exact blocks _ (List.mem_cons_of_mem _ List.mem_cons_self)
  obtain ⟨loaded, third, integers, floats, rest, unwritten⟩ :=
    positions_leads lowered (by simp [win64Positions]) words
  obtain ⟨after, call, gpr, low, kept⟩ := run_call loaded .r11 closing
  have spared {register : Gpr} (other : register ∉ [.rcx, .rdx, .r8, .r9])
      (different : register ≠ .rsp) : after.gpr register = ready.gpr register := by
    rw [gpr, rest register other, others register different]
  have whole : after.memory = ready.memory := by
    rw [kept, unwritten, untouched]
  have bottom : after.gpr .rsp = ready.gpr .rsp - BitVec.ofNat 64 shadowBytes := by
    rw [gpr, rest .rsp (by decide), shadow]
  have goal : loaded.gpr .r11 = target := by
    rw [← gpr, spared (by decide) (by decide), r11]
  refine ⟨after, ?_, ?_, ⟨?_, ?_, ?_⟩, opened.onwards ?_ whole, ?_, ?_⟩
  · rw [win64_eq, first, second, third, call, goal]
  · have eight : (preludeBytes stack.bytes.length + shadowBytes) % 16 = 8 := by
      rw [Nat.add_mod, (preludeBytes_bounds _).2.2, shadowBytes]
    rw [bottom, rsp, BitVec.sub_sub, ← BitVec.ofNat_add]
    exact sub_aligned _ (by rw [entered.aligned, eight])
  · rw [whole, bottom]
    exact (congrArg (ready.memory.load · _) (BitVec.sub_add_cancel _ _)).trans copied
  · rw [gpr]
    exact integers
  · rw [low]
    exact floats
  · have clear : ∀ r ∈ [Gpr.rbp, .r13, .r14, .r15], r ∉ [Gpr.rcx, .rdx, .r8, .r9] ∧ r ≠ .rsp := by
      decide
    exact fun register member => spared (clear register member).1 (clear register member).2
  · rw [spared (by decide) (by decide), rbx]
  · rw [whole]
    exact confined

theorem reaches (entered : Entered area site target m)
    (short : area.stack.bytes.length < 2 ^ 63) :
    ∃ after, run area.registers.trampoline m = .call target closing after ∧
      AtCall area site m after := by
  obtain ⟨registers, stack⟩ := area
  cases registers with
  | separate integers floats => exact entered.sysv_reaches short
  | shared row => exact entered.win64_reaches short

end Entered

/-- The code that is generated for a register file delivers its argument area: control goes to the
target at the one call there is, with the stack aligned, all stack bytes in place and every slot in
its register. -/
theorem trampoline_delivers (area : ArgumentArea) (site : CallSite) (target : Word) (m : Machine)
    (entered : Entered area site target m) (short : area.stack.bytes.length < 2 ^ 63) :
    ∃ after, run area.registers.trampoline m = .call target closing after ∧
      (∀ register, .call register ∉ closing) ∧ (after.gpr .rsp).toNat % 16 = 0 ∧
      area.registers.Delivered area.stack.bytes after ∧
      ∀ place, ¬ Inside (m.gpr .rsp - BitVec.ofNat 64 (preludeBytes area.stack.bytes.length))
        (preludeBytes area.stack.bytes.length) place → after.memory place = m.memory place := by
  obtain ⟨after, runs, reached⟩ := entered.reaches short
  refine ⟨after, runs, fun register => ?_, reached.aligned, reached.delivered, reached.confined⟩
  simp [closing]

theorem packed_delivers :
    Entered .packed .spread 0x1234 packedEntry ∧
    ArgumentArea.packed.stack.bytes.length < 2 ^ 63 ∧
    ∃ after, run sysv packedEntry = .call 0x1234 closing after ∧
      (after.gpr .rsp).toNat % 16 = 0 ∧
      after.memory.load (after.gpr .rsp) 20 = List.replicate 20 0x5a ∧
      [.rdi, .rsi, .rdx, .rcx, .r8, .r9].map after.gpr = [1, 2, 3, 4, 5, 6] ∧
      [0, 1, 2, 3, 4, 5, 6, 7].map after.lowXmm = [10, 11, 12, 13, 14, 15, 16, 17] ∧
      after.gpr .rax = 8 := by
  have entered : Entered .packed .spread 0x1234 packedEntry :=
    .of_machine .packed 0x1234 (by decide)
  refine ⟨entered, by decide, ?_⟩
  obtain ⟨after, runs, -, aligned, ⟨stack, integers, floats, rax⟩, -⟩ :=
    trampoline_delivers .packed .spread 0x1234 packedEntry entered (by decide)
  exact ⟨after, runs, aligned, stack, integers, floats, rax⟩

end ForeignCall
