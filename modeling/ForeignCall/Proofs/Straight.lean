import ForeignCall.Proofs.Block
import ForeignCall.Trampoline
import ForeignCall.X64.Machine

/-! Straight-line code. `Leads` says that code runs through from one machine to another, so that what
comes after it can be looked at separately. The building blocks of trampolines are here: shuffles of
registers, copies of bytes, and rows of registers that are loaded from consecutive words. -/
namespace ForeignCall.X64

namespace Machine

@[simp] theorem setGpr_gpr (m : Machine) (register other : Gpr) (word : Word) :
    (m.setGpr register word).gpr other = if other = register then word else m.gpr other := rfl

@[simp] theorem setGpr_lowXmm (m : Machine) (register : Gpr) (word : Word) (x : Xmm) :
    (m.setGpr register word).lowXmm x = m.lowXmm x := rfl

@[simp] theorem setGpr_memory (m : Machine) (register : Gpr) (word : Word) :
    (m.setGpr register word).memory = m.memory := rfl

@[simp] theorem setGpr_direction (m : Machine) (register : Gpr) (word : Word) :
    (m.setGpr register word).direction = m.direction := rfl

@[simp] theorem setXmm_gpr (m : Machine) (register : Xmm) (word : Word) :
    (m.setXmm register word).gpr = m.gpr := rfl

@[simp] theorem setXmm_lowXmm (m : Machine) (register other : Xmm) (word : Word) :
    (m.setXmm register word).lowXmm other = if other = register then word else m.lowXmm other := by
  by_cases same : other = register
  · simp [setXmm, lowXmm, same]
  · simp [setXmm, lowXmm, same]

@[simp] theorem setXmm_memory (m : Machine) (register : Xmm) (word : Word) :
    (m.setXmm register word).memory = m.memory := rfl

@[simp] theorem storeWord_gpr (m : Machine) (address word : Word) :
    (m.storeWord address word).gpr = m.gpr := rfl

@[simp] theorem storeWord_lowXmm (m : Machine) (address word : Word) (x : Xmm) :
    (m.storeWord address word).lowXmm x = m.lowXmm x := rfl

@[simp] theorem storeWord_memory (m : Machine) (address word : Word) :
    (m.storeWord address word).memory = m.memory.storeWord address word := rfl

@[simp] theorem storeWord_direction (m : Machine) (address word : Word) :
    (m.storeWord address word).direction = m.direction := rfl

end Machine

/-- The code runs through and takes the one machine to the other. -/
def Leads (code : List Instr) (before after : Machine) : Prop :=
  ∀ rest, run (code ++ rest) before = run rest after

namespace Leads

theorem nil (m : Machine) : Leads [] m m := fun _ => rfl

theorem append {first second : List Instr} {a b c : Machine} (early : Leads first a b)
    (late : Leads second b c) : Leads (first ++ second) a c := by
  intro rest
  rw [List.append_assoc, early, late]

theorem single {i : Instr} {before after : Machine} (step : i.execute before = .next after) :
    Leads [i] before after := by
  intro rest
  simp only [List.cons_append, List.nil_append, run, step]

theorem cons {i : Instr} {code : List Instr} {a b c : Machine} (step : i.execute a = .next b)
    (late : Leads code b c) : Leads (i :: code) a c :=
  (single step).append late

end Leads

/-! Shuffles. -/

def moves (pairs : List (Gpr × Gpr)) : List Instr := pairs.map fun pair => .move pair.1 pair.2

/-- If no source is among the targets, a row of moves is as good as one simultaneous move. -/
theorem moves_leads {pairs : List (Gpr × Gpr)} (distinct : (pairs.map Prod.fst).Nodup)
    (clear : ∀ target ∈ pairs.map Prod.fst, target ∉ pairs.map Prod.snd) (m : Machine) :
    ∃ after, Leads (moves pairs) m after ∧
      (∀ pair ∈ pairs, after.gpr pair.1 = m.gpr pair.2) ∧
      (∀ register, register ∉ pairs.map Prod.fst → after.gpr register = m.gpr register) ∧
      after.memory = m.memory ∧ after.direction = m.direction := by
  induction pairs generalizing m with
  | nil => exact ⟨m, .nil m, nofun, fun _ _ => rfl, rfl, rfl⟩
  | cons pair rest ih =>
    obtain ⟨target, source⟩ := pair
    simp only [List.map_cons, List.nodup_cons, List.mem_cons, not_or, forall_eq_or_imp] at *
    obtain ⟨unused, distinct⟩ := distinct
    obtain ⟨⟨-, unread⟩, clear⟩ := clear
    obtain ⟨after, runs, moved, kept, memory, direction⟩ := ih distinct
      (fun other member => (clear other member).2)
      (Machine.setGpr { m with rip := m.rip + BitVec.ofNat 64 (Instr.move target source).encode.length }
        target (m.gpr source))
    refine ⟨after, runs.cons rfl, ⟨?_, ?_⟩, ?_, memory, direction⟩
    · rw [kept target unused]
      simp
    · intro pair member
      have other : pair.2 ≠ target := by
        rintro rfl
        exact unread (List.mem_map_of_mem member)
      rw [moved pair member]
      simp [other]
    · rintro register ⟨other, outside⟩
      rw [kept register outside]
      simp [other]

/-! Copies. -/

namespace Machine

theorem moveBytes_gpr (m : Machine) (count : Nat) {register : Gpr}
    (other : register ∉ [.rdi, .rsi, .rcx]) : (m.moveBytes count).gpr register = m.gpr register := by
  induction count generalizing m with
  | zero => rfl
  | succ count ih =>
    simp only [List.mem_cons, not_or] at other
    rw [moveBytes, ih]
    simp [moveByte, other]

theorem moveByte_memory (m : Machine) : m.moveByte.memory =
    m.memory.store (m.gpr .rdi) (m.memory.load (m.gpr .rsi) 1) := by
  have first : m.memory.load (m.gpr .rsi) 1 = [m.memory (m.gpr .rsi)] := by
    simp [Memory.load]
  rw [first, Memory.store_singleton]
  rfl

/-- Upwards, and with the source out of the way of the target, the copy loop is one block store. -/
theorem moveBytes_memory (m : Machine) (count : Nat) (upward : m.direction = false)
    (small : count ≤ 2 ^ 64) (apart : Apart (m.gpr .rsi) count (m.gpr .rdi) count) :
    (m.moveBytes count).memory =
      m.memory.store (m.gpr .rdi) (m.memory.load (m.gpr .rsi) count) := by
  induction count generalizing m with
  | zero =>
    funext place
    rfl
  | succ count ih =>
    have source : m.moveByte.gpr .rsi = m.gpr .rsi + BitVec.ofNat 64 1 := by
      simp [moveByte, stride, upward]
    have target : m.moveByte.gpr .rdi = m.gpr .rdi + BitVec.ofNat 64 1 := by
      simp [moveByte, stride, upward]
    have onwards : Apart (m.gpr .rsi + BitVec.ofNat 64 1) count (m.gpr .rdi) (count + 1) :=
      apart.part (by omega) small
    have tail : m.moveByte.memory.load (m.gpr .rsi + BitVec.ofNat 64 1) count =
        m.memory.load (m.gpr .rsi + BitVec.ofNat 64 1) count := by
      rw [moveByte_memory]
      apply Memory.load_store_apart
      rw [Memory.load_length]
      have head := onwards.symm.part (show 0 + 1 ≤ count + 1 by omega) small
      rw [BitVec.add_zero] at head
      exact head.symm
    have ahead : Apart (m.moveByte.gpr .rsi) count (m.moveByte.gpr .rdi) count := by
      rw [source, target]
      exact (onwards.symm.part (by omega) small).symm
    have joined := m.memory.store_append (m.gpr .rdi) (m.memory.load (m.gpr .rsi) 1)
      (m.memory.load (m.gpr .rsi + BitVec.ofNat 64 1) count)
      (by rw [Memory.load_length, Memory.load_length]; omega)
    rw [Memory.load_length] at joined
    rw [moveBytes, ih m.moveByte upward (by omega) ahead, source, target, tail, moveByte_memory,
      joined, Nat.add_comm count 1, Memory.load_append]

end Machine

theorem repMovsb_leads (m : Machine) (upward : m.direction = false)
    (apart : Apart (m.gpr .rsi) (m.gpr .rcx).toNat (m.gpr .rdi) (m.gpr .rcx).toNat) :
    ∃ after, Leads [.repMovsb] m after ∧
      (∀ register, register ∉ [.rdi, .rsi, .rcx] → after.gpr register = m.gpr register) ∧
      after.memory =
        m.memory.store (m.gpr .rdi) (m.memory.load (m.gpr .rsi) (m.gpr .rcx).toNat) := by
  let past := { m with rip := m.rip + BitVec.ofNat 64 Instr.repMovsb.encode.length }
  exact ⟨past.moveBytes (m.gpr .rcx).toNat, .single rfl,
    fun _ other => past.moveBytes_gpr _ other,
    past.moveBytes_memory _ upward (Nat.le_of_lt (m.gpr .rcx).isLt) apart⟩

/-! Single instructions. -/

theorem push_leads (m : Machine) (register : Gpr) :
    ∃ after, Leads [.push register] m after ∧
      after.gpr .rsp = m.gpr .rsp - BitVec.ofNat 64 8 ∧
      (∀ r, r ≠ .rsp → after.gpr r = m.gpr r) ∧
      after.memory = m.memory.storeWord (m.gpr .rsp - BitVec.ofNat 64 8) (m.gpr register) := by
  refine ⟨_, .single rfl, rfl, ?_, rfl⟩
  intro r other
  simp [Machine.push, other]

theorem pop_leads (m : Machine) {register : Gpr} (other : register ≠ .rsp) :
    ∃ after, Leads [.pop register] m after ∧ after.gpr register = m.top ∧
      after.gpr .rsp = m.gpr .rsp + 8 ∧
      (∀ r, r ∉ [.rsp, register] → after.gpr r = m.gpr r) ∧ after.memory = m.memory := by
  refine ⟨_, .single rfl, ?_, ?_, ?_, rfl⟩
  · simp [Machine.top, Machine.loadWord]
  · simp [Machine.drop, Ne.symm other]
  · intro r outside
    simp only [List.mem_cons, not_or] at outside
    simp [Machine.drop, outside]

theorem run_call (m : Machine) (register : Gpr) (rest : List Instr) :
    ∃ after, run (.call register :: rest) m = .call (m.gpr register) rest after ∧
      after.gpr = m.gpr ∧ after.lowXmm = m.lowXmm ∧ after.memory = m.memory :=
  ⟨_, rfl, rfl, rfl, rfl⟩

theorem moveLow_leads (m : Machine) (register : Gpr) (value : BitVec 32) :
    ∃ after, Leads [.moveLow register value] m after ∧
      after.gpr register = value.setWidth 64 ∧
      (∀ other, other ≠ register → after.gpr other = m.gpr other) ∧
      after.lowXmm = m.lowXmm ∧ after.memory = m.memory := by
  refine ⟨_, .single rfl, ?_, ?_, rfl, rfl⟩
  · simp
  · intro other different
    simp [different]

end ForeignCall.X64
