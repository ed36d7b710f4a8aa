import ForeignCall.Proofs.Delivery

/-! Return. Whatever a callee does with the registers and the memory that are its own, the code after
the call finds the frame through `rbp` and the block for the results through `rbx`. -/
namespace ForeignCall

open X64 Trampoline

/-- A call that came back: the callee-saved registers and a block of memory are as they were. -/
structure CameBack (start : Word) (size : Nat) (call back : Machine) : Prop where
  kept : ∀ register ∈ [.rbx, .rbp, .rsp, .r12, .r13, .r14, .r15],
    back.gpr register = call.gpr register
  intact : ∀ place, Inside start size place → back.memory place = call.memory place

/-- A clean return to the caller of `m`, with `bytes` written at `results` and nowhere else. -/
structure Returned (m back after : Machine) (results : Word) (bytes : List Byte) : Prop where
  rsp : after.gpr .rsp = m.gpr .rsp + 8
  rip : after.rip = m.top
  kept : ∀ register ∈ [.rbx, .rbp, .r12, .r13, .r14, .r15],
    after.gpr register = m.gpr register
  memory : after.memory = back.memory.store results bytes

def ReturnRegisters.of (m : Machine) : ReturnRegisters :=
  ⟨m.gpr .rax, m.gpr .rdx, m.lowXmm 0, m.lowXmm 1⟩

theorem ReturnRegisters.bytes_length (r : ReturnRegisters) : r.bytes.length = 32 :=
  bytes_flatMap_length _

theorem ReturnRegisters.load_store (memory : Memory) (address : Word) (r : ReturnRegisters) :
    load (memory.store address r.bytes) address = r := by
  have stored := memory.load_store address r.bytes (by rw [bytes_length]; decide)
  rw [bytes_length] at stored
  generalize memory.store address r.bytes = written at stored ⊢
  have holds : written.load address (8 * [r.rax, r.rdx, r.xmm0, r.xmm1].length) =
      [r.rax, r.rdx, r.xmm0, r.xmm1].flatMap Word.bytes := stored
  have first := Memory.loadWord_of_words holds 0 (by simp)
  have second := Memory.loadWord_of_words holds 1 (by simp)
  have third := Memory.loadWord_of_words holds 2 (by simp)
  have fourth := Memory.loadWord_of_words holds 3 (by simp)
  rw [Nat.mul_zero, BitVec.add_zero] at first
  exact congr (congr (congr (congrArg mk first) second) third) fourth

namespace Trampoline

/-- Registers are popped and control goes back; what the stack holds says where everything goes. -/
theorem unwind_runs {registers : List Gpr} (distinct : registers.Nodup) (clear : .rsp ∉ registers)
    (m : Machine) {words : List Word} {back : Word} (matching : registers.length = words.length)
    (holds : m.memory.load (m.gpr .rsp) (8 * (words ++ [back]).length) =
      (words ++ [back]).flatMap Word.bytes) :
    ∃ after, run (registers.map .pop ++ [.ret]) m = .returned after ∧
      registers.map after.gpr = words ∧ after.rip = back ∧
      after.gpr .rsp = m.gpr .rsp + BitVec.ofNat 64 (8 * (words ++ [back]).length) ∧
      (∀ register, register ∉ .rsp :: registers → after.gpr register = m.gpr register) ∧
      after.memory = m.memory := by
  induction registers generalizing m words with
  | nil =>
    obtain rfl := List.eq_nil_of_length_eq_zero matching.symm
    have top := Memory.loadWord_of_words holds 0 (by simp)
    rw [Nat.mul_zero, BitVec.add_zero] at top
    refine ⟨_, rfl, rfl, top, ?_, ?_, rfl⟩
    · rfl
    · intro register outside
      simp only [List.mem_cons, List.not_mem_nil, or_false] at outside
      simp [Machine.leave, Machine.drop, outside]
  | cons register rest ih =>
    obtain ⟨word, words, rfl⟩ := List.exists_cons_of_length_eq_add_one matching.symm
    simp only [List.nodup_cons, List.mem_cons, not_or] at distinct clear
    obtain ⟨middle, first, popped, rsp, kept, same⟩ := pop_leads m (Ne.symm clear.1)
    have layers : 8 * (word :: words ++ [back]).length = 8 + 8 * (words ++ [back]).length := by
      simp only [List.cons_append, List.length_cons]
      omega
    rw [layers, Memory.load_append, List.cons_append, List.flatMap_cons] at holds
    -- The words that are left lie above the first one, where the first pop leaves the stack pointer.
    obtain ⟨top, above⟩ := List.append_inj holds (by simp)
    obtain ⟨after, others, filled, rip, bottom, untouched, memory⟩ := ih distinct.2 clear.2 middle
      (Nat.succ.inj matching) (by rw [rsp, same]; exact above)
    refine ⟨after, ?_, ?_, rip, ?_, ?_, memory.trans same⟩
    · exact (first _).trans others
    · rw [List.map_cons, filled, untouched register (by simp [distinct.1, Ne.symm clear.1]), popped]
      exact congrArg (· :: words) (Memory.loadWord_of_load top)
    · rw [bottom, rsp, layers, BitVec.ofNat_add, BitVec.add_assoc]
      rfl
    · intro other outside
      simp only [List.mem_cons, not_or] at outside
      rw [untouched other (by simp [outside]), kept other (by simp [outside])]

theorem integers_leads (m : Machine) :
    ∃ after, Leads [.store ⟨.rbx, 0⟩ .rax, .store ⟨.rbx, 8⟩ .rdx] m after ∧ after.gpr = m.gpr ∧
      after.lowXmm = m.lowXmm ∧ after.memory =
        m.memory.store (m.gpr .rbx) ((m.gpr .rax).bytes ++ (m.gpr .rdx).bytes) := by
  have start : m.gpr .rbx + BitVec.ofInt 64 0 = m.gpr .rbx := BitVec.add_zero _
  have joined := m.memory.store_storeWord (m.gpr .rbx) (m.gpr .rax).bytes (m.gpr .rdx)
    (Word.bytes_length _) (by decide)
  refine ⟨_, fun rest => rfl, rfl, rfl, ?_⟩
  rw [← joined]
  show (m.memory.storeWord (m.gpr .rbx + BitVec.ofInt 64 0) (m.gpr .rax)).storeWord _ _ = _
  rw [start]
  rfl

theorem results_leads (m : Machine) :
    ∃ after, Leads (closing.take 4) m after ∧ after.gpr = m.gpr ∧
      after.memory = m.memory.store (m.gpr .rbx) (ReturnRegisters.of m).bytes := by
  obtain ⟨middle, first, gpr, low, memory⟩ := integers_leads m
  have third := m.memory.store_storeWord (m.gpr .rbx) ((m.gpr .rax).bytes ++ (m.gpr .rdx).bytes)
    (m.lowXmm 0) (by simp) (show 16 + 8 ≤ 2 ^ 64 by decide)
  have fourth := m.memory.store_storeWord (m.gpr .rbx)
    ((m.gpr .rax).bytes ++ (m.gpr .rdx).bytes ++ (m.lowXmm 0).bytes) (m.lowXmm 1) (by simp)
    (show 24 + 8 ≤ 2 ^ 64 by decide)
  refine ⟨_, first.append (fun rest => rfl), gpr, ?_⟩
  show (middle.memory.storeWord (middle.gpr .rbx + BitVec.ofNat 64 16) (middle.lowXmm 0)).storeWord
    (middle.gpr .rbx + BitVec.ofNat 64 24) (middle.lowXmm 1) = _
  rw [memory, gpr, low, third, fourth]
  simp [ReturnRegisters.bytes, ReturnRegisters.of]

/-- The address of the frame is a fixed distance from `rbp`, so `rsp` need not be trusted. -/
theorem frame_leads (m : Machine) :
    ∃ after, Leads [.lea .rsp ⟨.rbp, -16⟩] m after ∧
      after.gpr .rsp = m.gpr .rbp - BitVec.ofNat 64 16 ∧
      (∀ register, register ≠ .rsp → after.gpr register = m.gpr register) ∧
      after.memory = m.memory := by
  refine ⟨_, .single rfl, ?_, ?_, rfl⟩
  · rw [BitVec.sub_eq_add_neg]
    rfl
  · intro register other
    simp [other]

theorem closing_eq : closing = closing.take 4 ++ ([.lea .rsp ⟨.rbp, -16⟩] ++
    ([.r12, .rbx, .rbp].map .pop ++ [.ret])) := rfl

/-- The code after the call needs `rbx`, `rbp` and the frame, and nothing else of what the callee
leaves. -/
theorem closing_runs {area : ArgumentArea} {site : CallSite} {m call back : Machine}
    (reached : AtCall area site m call)
    (apart : Apart site.results 32 (m.gpr .rsp - BitVec.ofNat 64 24) 32)
    (returned : CameBack (call.gpr .rbp - BitVec.ofNat 64 16) 32 call back) :
    ∃ after, run closing back = .returned after ∧
      Returned m back after site.results (ReturnRegisters.of back).bytes := by
  have block : call.gpr .rbp - BitVec.ofNat 64 16 = m.gpr .rsp - BitVec.ofNat 64 24 := by
    rw [reached.opened.rbp, BitVec.sub_sub, ← BitVec.ofNat_add]
  have rbp := returned.kept .rbp (by decide)
  have pointer := (returned.kept .rbx (by decide)).trans reached.results
  have size := (ReturnRegisters.of back).bytes_length
  obtain ⟨stored, first, gpr, memory⟩ := results_leads back
  rw [pointer] at memory
  obtain ⟨framed, second, rsp, kept, same⟩ := frame_leads stored
  rw [gpr, rbp, block] at rsp
  have frame : framed.memory.load (framed.gpr .rsp) 32 =
      [m.gpr .r12, m.gpr .rbx, m.gpr .rbp, m.top].flatMap Word.bytes := by
    rw [same, memory, rsp, Memory.load_store_apart _ (by rw [size]; exact apart.symm), ← block,
      Memory.load_congr returned.intact, block]
    exact reached.opened.frame
  obtain ⟨after, third, restored, rip, bottom, others, unwritten⟩ :=
    unwind_runs (show [Gpr.r12, .rbx, .rbp].Nodup by decide) (by decide) framed
      (show 3 = [m.gpr .r12, m.gpr .rbx, m.gpr .rbp].length from rfl) frame
  simp only [List.map_cons, List.cons.injEq] at restored
  obtain ⟨r12, base, frameBase, -⟩ := restored
  have plain : ∀ r ∈ [Gpr.r13, .r14, .r15], after.gpr r = m.gpr r := by
    intro register member
    have spared : ∀ r ∈ [Gpr.r13, .r14, .r15], r ∉ [Gpr.rsp, .r12, .rbx, .rbp] ∧ r ≠ .rsp ∧
      r ∈ [Gpr.rbx, .rbp, .rsp, .r12, .r13, .r14, .r15] := by decide
    obtain ⟨unpopped, unframed, saved⟩ := spared register member
    rw [others register unpopped, kept register unframed, gpr, returned.kept register saved,
      reached.opened.kept register member]
  refine ⟨after, ?_, ?_, rip, ?_, unwritten.trans (same.trans memory)⟩
  · rw [closing_eq, first, second, third]
  · rw [bottom, rsp]
    exact sub_add_sum (m.gpr .rsp) 24 8
  · intro register member
    simp only [List.mem_cons, List.not_mem_nil, or_false] at member
    rcases member with rfl | rfl | rfl | high
    · exact base
    · exact frameBase
    · exact r12
    · exact plain register (by simpa using high)

def systemMoves : List (Gpr × Gpr) := [(.rbx, .rdx), (.rax, .rsi), (.r11, .rdi)]

def systemClosing : List Instr :=
  [.store ⟨.rbx, 0⟩ .rax, .store ⟨.rbx, 8⟩ .rdx] ++ ([.rbx].map .pop ++ [.ret])

theorem system_eq : system = [.push .rbx] ++ (moves systemMoves ++
    (loadRow .r11 systemIntegers ++ .syscall :: systemClosing)) := rfl

/-- The same for a system call: what the kernel finds, and what the return will need. -/
structure AtTrap (integers : SlotRow integerSlots) (site : CallSite) (number : Word)
    (m trap : Machine) : Prop where
  number : trap.gpr .rax = number
  delivered : systemIntegers.map trap.gpr = integers.slots.toList
  results : trap.gpr .rbx = site.results
  rsp : trap.gpr .rsp = m.gpr .rsp - BitVec.ofNat 64 8
  kept : ∀ register ∈ [.rbp, .r12, .r13, .r14, .r15], trap.gpr register = m.gpr register
  frame : trap.memory.load (trap.gpr .rsp) 16 = [m.gpr .rbx, m.top].flatMap Word.bytes

theorem system_reaches {integers : SlotRow integerSlots} {site : CallSite} {number : Word}
    {m : Machine} (entered : SystemEntered integers site number m) :
    ∃ trap, run system m = .trap systemClosing trap ∧
      AtTrap integers site number m trap := by
  obtain ⟨framed, first, rsp, kept, written⟩ := push_leads m .rbx
  obtain ⟨ready, second, moved, others, same, -⟩ :=
    moves_leads (show (systemMoves.map Prod.fst).Nodup by decide) (by decide) framed
  have r11 : ready.gpr .r11 = site.integerSlots := by
    rw [moved (.r11, .rdi) (by decide), kept .rdi (by decide)]
    exact entered.parameters (.rdi, _) (by simp)
  have words : ready.memory.load (ready.gpr .r11) (8 * integers.slots.toList.length) =
      integers.slots.toList.flatMap Word.bytes := by
    rw [r11, same, written, Vector.length_toList]
    refine (Memory.load_store_apart _ ?_).trans entered.holds
    rw [Word.bytes_length]
    exact entered.apart
  obtain ⟨loaded, third, row, rest, -, unwritten⟩ :=
    loadRow_leads (show systemIntegers.Nodup by decide) (by decide) ready
      (by simp [systemIntegers]) words
  obtain ⟨trap, stop, gpr, memory⟩ : ∃ trap, run (.syscall :: systemClosing) loaded =
      .trap systemClosing trap ∧ trap.gpr = loaded.gpr ∧ trap.memory = loaded.memory :=
    ⟨_, rfl, rfl, rfl⟩
  have spared {register : Gpr} (other : register ∉ systemIntegers) :
      trap.gpr register = ready.gpr register := by
    rw [gpr, rest register other]
  have bottom : trap.gpr .rsp = m.gpr .rsp - BitVec.ofNat 64 8 := by
    rw [spared (by decide), others .rsp (by decide), rsp]
  refine ⟨trap, ?_, ?_, ?_, ?_, bottom, ?_, ?_⟩
  · rw [system_eq, first, second, third, stop]
  · rw [spared (by decide), moved (.rax, .rsi) (by decide), kept .rsi (by decide)]
    exact entered.parameters (.rsi, _) (by simp)
  · rw [gpr]
    exact row
  · rw [spared (by decide), moved (.rbx, .rdx) (by decide), kept .rdx (by decide)]
    exact entered.parameters (.rdx, _) (by simp)
  · intro register member
    have clear : ∀ r ∈ [Gpr.rbp, .r12, .r13, .r14, .r15], r ∉ systemIntegers ∧
      r ∉ systemMoves.map Prod.fst ∧ r ≠ .rsp := by decide
    obtain ⟨unloaded, unmoved, unpushed⟩ := clear register member
    rw [spared unloaded, others register unmoved, kept register unpushed]
  · have top : m.gpr .rsp - BitVec.ofNat 64 8 + BitVec.ofNat 64 8 = m.gpr .rsp :=
      BitVec.sub_add_cancel _ _
    rw [memory, unwritten, same, written, bottom, show 16 = 8 + 8 from rfl,
      Memory.load_storeWord_below _ _ _ (by decide), top, ← Memory.bytes_loadWord]
    simp [Machine.top, Machine.loadWord]

theorem systemClosing_runs {integers : SlotRow integerSlots} {site : CallSite} {number : Word}
    {m trap back : Machine} (reached : AtTrap integers site number m trap)
    (apart : Apart site.results 16 (m.gpr .rsp - BitVec.ofNat 64 8) 16)
    (returned : CameBack (trap.gpr .rsp) 16 trap back) :
    ∃ after, run systemClosing back = .returned after ∧
      Returned m back after site.results ((back.gpr .rax).bytes ++ (back.gpr .rdx).bytes) := by
  have pointer := (returned.kept .rbx (by decide)).trans reached.results
  have bottom := returned.kept .rsp (by decide)
  obtain ⟨stored, first, gpr, -, memory⟩ := integers_leads back
  rw [pointer] at memory
  have words : stored.memory.load (stored.gpr .rsp) 16 =
      [m.gpr .rbx, m.top].flatMap Word.bytes := by
    rw [memory, gpr, bottom, Memory.load_store_apart _ (by simpa [reached.rsp] using apart.symm),
      Memory.load_congr returned.intact]
    exact reached.frame
  obtain ⟨after, second, restored, rip, top, others, unwritten⟩ :=
    unwind_runs (show [Gpr.rbx].Nodup by decide) (by decide) stored
      (show 1 = [m.gpr .rbx].length from rfl) words
  refine ⟨after, ?_, ?_, rip, ?_, unwritten.trans memory⟩
  · rw [systemClosing, first, second]
  · rw [top, gpr, bottom, reached.rsp]
    exact sub_add_sum (m.gpr .rsp) 8 8
  · simp only [List.map_cons, List.cons.injEq] at restored
    intro register member
    rcases List.mem_cons.mp member with rfl | other
    · exact restored.1
    · have spared : ∀ r ∈ [Gpr.rbp, .r12, .r13, .r14, .r15], r ∉ [Gpr.rsp, .rbx] ∧
        r ∈ [Gpr.rbx, .rbp, .rsp, .r12, .r13, .r14, .r15] := by decide
      obtain ⟨unpopped, saved⟩ := spared register other
      rw [others register unpopped, gpr, returned.kept register saved, reached.kept register other]

end Trampoline

/-- Whatever the callee leaves in the registers and the memory that are its own, a trampoline goes
back to its caller with the callee-saved registers as they were and the results in their block. -/
theorem trampolines_return (area : ArgumentArea) (site : CallSite) (m : Machine) :
    (∀ target, Entered area site target m → area.stack.bytes.length < 2 ^ 63 →
      Apart site.results 32 (m.gpr .rsp - 24) 32 →
      ∃ call, run area.registers.trampoline m = .call target closing call ∧
        ∀ back, CameBack (call.gpr .rbp - 16) 32 call back →
          ∃ after, run closing back = .returned after ∧
            Returned m back after site.results (ReturnRegisters.of back).bytes ∧
            ReturnRegisters.load after.memory site.results = .of back) ∧
    (∀ integers number, SystemEntered integers site number m →
      Apart site.results 16 (m.gpr .rsp - 8) 16 →
      ∃ rest trap, run system m = .trap rest trap ∧ trap.gpr .rax = number ∧
        [.rdi, .rsi, .rdx, .r10, .r8, .r9].map trap.gpr = integers.slots.toList ∧
        ∀ back, CameBack (trap.gpr .rsp) 16 trap back →
          ∃ after, run rest back = .returned after ∧
            Returned m back after site.results ((back.gpr .rax).bytes ++ (back.gpr .rdx).bytes)) := by
  constructor
  · intro target entered short apart
    obtain ⟨call, runs, reached⟩ := entered.reaches short
    refine ⟨call, runs, fun back returned => ?_⟩
    obtain ⟨after, finished, clean⟩ := closing_runs reached apart returned
    refine ⟨after, finished, clean, ?_⟩
    rw [clean.memory, ReturnRegisters.load_store]
  · intro integers number entered apart
    obtain ⟨trap, runs, reached⟩ := system_reaches entered
    exact ⟨systemClosing, trap, runs, reached.number, reached.delivered,
      fun back returned => systemClosing_runs reached apart returned⟩

theorem packed_returns :
    (∃ call after, run sysv packedEntry = .call 0x1234 closing call ∧
      run closing ((call.setGpr .rax 7).setXmm 0 9) = .returned after ∧
      after.gpr .rsp = 0x80000000 ∧ after.rip = 0x50000 ∧
      ReturnRegisters.load after.memory 0x40000 = ⟨7, call.gpr .rdx, 9, call.lowXmm 1⟩) ∧
    ∃ rest trap after, run system (packedSystemEntry 39) = .trap rest trap ∧
      trap.gpr .rax = 39 ∧
      [.rdi, .rsi, .rdx, .r10, .r8, .r9].map trap.gpr = [1, 2, 3, 4, 5, 6] ∧
      run rest (trap.setGpr .rax 7) = .returned after ∧
      after.gpr .rsp = 0x80000000 ∧ after.rip = 0x50000 ∧
      after.memory.load 0x40000 16 = (7 : Word).bytes ++ (trap.gpr .rdx).bytes := by
  constructor
  · have entered : Entered .packed .spread 0x1234 packedEntry :=
      .of_machine .packed 0x1234 (by decide)
    have apart : Apart CallSite.spread.results 32 (packedEntry.gpr .rsp - 24) 32 :=
      .of_toNat (by decide) (by decide)
    obtain ⟨call, runs, returns⟩ :=
      (trampolines_return .packed .spread packedEntry).1 0x1234 entered (by decide) apart
    obtain ⟨after, finished, clean, results⟩ :=
      returns ((call.setGpr .rax 7).setXmm 0 9) ⟨by simp, fun _ _ => rfl⟩
    refine ⟨call, after, runs, finished, clean.rsp, ?_, results⟩
    rw [clean.rip]
    exact Memory.loadWord_storeWord _ _ _
  · have entered : SystemEntered ⟨#v[1, 2, 3, 4, 5, 6], 6⟩ .spread 39 (packedSystemEntry 39) :=
      .of_machine _ _ _ 39 (by decide)
    have apart : Apart CallSite.spread.results 16 ((packedSystemEntry 39).gpr .rsp - 8) 16 :=
      .of_toNat (by decide) (by decide)
    obtain ⟨rest, trap, runs, number, slots, returns⟩ :=
      (trampolines_return .packed .spread (packedSystemEntry 39)).2 _ 39 entered apart
    obtain ⟨after, finished, clean⟩ := returns (trap.setGpr .rax 7) ⟨by simp, fun _ _ => rfl⟩
    refine ⟨rest, trap, after, runs, number, slots, finished, clean.rsp, ?_, ?_⟩
    · rw [clean.rip]
      exact Memory.loadWord_storeWord _ _ _
    · rw [clean.memory]
      exact Memory.load_store _ _ ((7 : Word).bytes ++ (trap.gpr .rdx).bytes) (by simp)

end ForeignCall
