import ForeignCall.Layout.Placement
import ForeignCall.Proofs.Straight

/-! The part that the ordinary trampolines share: a frame is opened, the parameters are moved out of
the way, and the stack bytes are copied. What callers rely on later is the frame, four words from
the saved `r12` up to the address to return to. -/
namespace ForeignCall.Trampoline

open X64

/-- The frame of a trampoline that was entered as `m`. -/
def Framed (m : Machine) (memory : Memory) : Prop :=
  memory.load (m.gpr .rsp - BitVec.ofNat 64 24) 32 =
    [m.gpr .r12, m.gpr .rbx, m.gpr .rbp, m.top].flatMap Word.bytes

/-- Memory with the frame in place. -/
def saved (m : Machine) : Memory :=
  m.memory.storeWord (m.gpr .rsp - BitVec.ofNat 64 8) (m.gpr .rbp)
    |>.storeWord (m.gpr .rsp - BitVec.ofNat 64 16) (m.gpr .rbx)
    |>.storeWord (m.gpr .rsp - BitVec.ofNat 64 24) (m.gpr .r12)

theorem saved_framed (m : Machine) : Framed m (saved m) := by
  have low := sub_eq_add (m.gpr .rsp) (show 16 ≤ 24 by decide)
  have high := sub_eq_add (m.gpr .rsp) (show 8 ≤ 16 by decide)
  have top : m.gpr .rsp = m.gpr .rsp - BitVec.ofNat 64 8 + BitVec.ofNat 64 8 :=
    (BitVec.sub_add_cancel _ _).symm
  rw [Framed, saved, show 32 = 8 + 24 from rfl, Memory.load_storeWord_below _ _ _ (by decide),
    ← low, show 24 = 8 + 16 from rfl, Memory.load_storeWord_below _ _ _ (by decide), ← high,
    show 16 = 8 + 8 from rfl, Memory.load_storeWord_below _ _ _ (by decide), ← top,
    ← Memory.bytes_loadWord]
  simp [Machine.top, Machine.loadWord]

theorem saved_confined (m : Machine) {depth : Nat} (deep : 24 ≤ depth) (small : depth ≤ 2 ^ 64) :
    Confined (m.gpr .rsp - BitVec.ofNat 64 depth) depth m.memory (saved m) := by
  have write (memory : Memory) (word : Word) {below : Nat} (enough : 8 ≤ below)
      (within : below ≤ depth) : Confined (m.gpr .rsp - BitVec.ofNat 64 depth) depth memory
        (memory.storeWord (m.gpr .rsp - BitVec.ofNat 64 below) word) := by
    rw [sub_eq_add (m.gpr .rsp) within]
    exact .store memory (by rw [Word.bytes_length]; omega) small
  exact ((write _ _ (by decide) (by omega)).trans (write _ _ (by decide) (by omega))).trans
    (write _ _ (by decide) deep)

theorem opening_leads (m : Machine) :
    ∃ after, Leads opening m after ∧ after.gpr .rbp = m.gpr .rsp - BitVec.ofNat 64 8 ∧
      after.gpr .rsp = m.gpr .rsp - BitVec.ofNat 64 24 ∧
      (∀ register, register ∉ [.rsp, .rbp] → after.gpr register = m.gpr register) ∧
      after.memory = saved m ∧ after.direction = m.direction := by
  have second : m.gpr .rsp - 8 - 8 = m.gpr .rsp - BitVec.ofNat 64 16 := BitVec.sub_sub ..
  have third : m.gpr .rsp - 8 - 8 - 8 = m.gpr .rsp - BitVec.ofNat 64 24 := by
    rw [second]
    exact BitVec.sub_sub ..
  refine ⟨_, fun rest => rfl, rfl, third, ?_, ?_, rfl⟩
  · intro register other
    simp only [List.mem_cons, not_or] at other
    simp [Machine.push, other]
  · rw [saved, ← third, ← second]
    rfl

theorem and_neg_sixteen (word : Word) :
    word &&& BitVec.ofInt 64 (-16) = (word >>> 4) <<< 4 := by
  have bits : ∀ i : Fin 64, (BitVec.ofInt 64 (-16)).getLsbD i.val = decide (4 ≤ i.val) := by decide
  apply BitVec.eq_of_getLsbD_eq
  intro i inside
  have bit := bits ⟨i, inside⟩
  simp only [BitVec.getLsbD_and, BitVec.getLsbD_shiftLeft, BitVec.getLsbD_ushiftRight, bit]
  by_cases low : i < 4
  · simp [low]
  · have whole : 4 + (i - 4) = i := by omega
    simp [low, whole, inside, Nat.le_of_not_lt low]

/-- Rounding up is adding fifteen and dropping the four low bits. -/
theorem mask_eq (n : Nat) (small : n + 15 < 2 ^ 64) :
    (BitVec.ofNat 64 n + 15) &&& BitVec.ofInt 64 (-16) = BitVec.ofNat 64 (roundUp n 16) := by
  apply BitVec.eq_of_toNat_eq
  rw [and_neg_sixteen, BitVec.toNat_shiftLeft, BitVec.toNat_ushiftRight, Nat.shiftLeft_eq,
    Nat.shiftRight_eq_div_pow, BitVec.toNat_add, BitVec.toNat_ofNat, BitVec.toNat_ofNat, roundUp]
  have fifteen : (15 : Word).toNat = 15 := rfl
  omega

theorem reserve_leads (m : Machine) {n : Nat} (size : m.gpr .rdi = BitVec.ofNat 64 n)
    (short : n < 2 ^ 63) :
    ∃ after, Leads (copyStack.take 6) m after ∧
      after.gpr .rsp = m.gpr .rsp - BitVec.ofNat 64 (roundUp n 16) ∧
      after.gpr .rdi = after.gpr .rsp ∧ after.gpr .rcx = BitVec.ofNat 64 n ∧
      (∀ register, register ∉ [.rax, .rcx, .rdi, .rsp] →
        after.gpr register = m.gpr register) ∧
      after.memory = m.memory ∧ after.direction = m.direction := by
  have room : m.gpr .rsp - ((m.gpr .rdi + 15) &&& BitVec.ofInt 64 (-16)) =
      m.gpr .rsp - BitVec.ofNat 64 (roundUp n 16) := by rw [size, mask_eq n (by omega)]
  refine ⟨_, fun rest => rfl, ?_, rfl, size, ?_, rfl, rfl⟩
  · exact room
  · intro register other
    simp only [List.mem_cons, not_or] at other
    simp [other]

/-- `n` bytes are copied to the bottom of `n` bytes of new stack room, rounded up. -/
theorem copyStack_leads (m : Machine) {n : Nat} (size : m.gpr .rdi = BitVec.ofNat 64 n)
    (short : n < 2 ^ 63) (upward : m.direction = false)
    (apart : Apart (m.gpr .rsi) n (m.gpr .rsp - BitVec.ofNat 64 (roundUp n 16)) n) :
    ∃ after, Leads copyStack m after ∧
      after.gpr .rsp = m.gpr .rsp - BitVec.ofNat 64 (roundUp n 16) ∧
      (∀ register, register ∉ [.rax, .rcx, .rdi, .rsi, .rsp] →
        after.gpr register = m.gpr register) ∧
      after.memory = m.memory.store (m.gpr .rsp - BitVec.ofNat 64 (roundUp n 16))
        (m.memory.load (m.gpr .rsi) n) := by
  obtain ⟨ready, first, rsp, rdi, rcx, kept, memory, direction⟩ := reserve_leads m size short
  have rsi := kept .rsi (by decide)
  have count : (ready.gpr .rcx).toNat = n := by
    rw [rcx, BitVec.toNat_ofNat]
    omega
  rw [← rsi, ← rsp, ← rdi, ← count] at apart
  obtain ⟨after, second, same, copied⟩ := repMovsb_leads ready (direction.trans upward) apart
  refine ⟨after, first.append second, (same .rsp (by decide)).trans rsp, ?_, ?_⟩
  · intro register other
    simp only [List.mem_cons, not_or] at other
    rw [same register (by simp [other]), kept register (by simp [other])]
  · rw [copied, count, rdi, rsp, rsi, memory]

/-- Bytes of stack that the prelude takes for `n` stack bytes. -/
def preludeBytes (n : Nat) : Nat := 24 + roundUp n 16

theorem preludeBytes_bounds (n : Nat) :
    24 + n ≤ preludeBytes n ∧ preludeBytes n ≤ n + 39 ∧ preludeBytes n % 16 = 8 := by
  unfold preludeBytes roundUp
  omega

def filled (m : Machine) (bytes : List Byte) : Memory :=
  (saved m).store (m.gpr .rsp - BitVec.ofNat 64 (preludeBytes bytes.length)) bytes

theorem filled_framed (m : Machine) {bytes : List Byte} (short : bytes.length < 2 ^ 63) :
    Framed m (filled m bytes) := by
  obtain ⟨enough, bounded, -⟩ := preludeBytes_bounds bytes.length
  have below : Apart
      (m.gpr .rsp - BitVec.ofNat 64 (preludeBytes bytes.length) + BitVec.ofNat 64 0) bytes.length
      (m.gpr .rsp - BitVec.ofNat 64 (preludeBytes bytes.length) +
        BitVec.ofNat 64 (preludeBytes bytes.length - 24)) 32 :=
    Apart.of_le (by omega) (by omega)
  rw [BitVec.add_zero, ← sub_eq_add (m.gpr .rsp) (by omega)] at below
  rw [Framed, filled, Memory.load_store_apart _ below.symm]
  exact saved_framed m

theorem filled_confined (m : Machine) {bytes : List Byte} (short : bytes.length < 2 ^ 63) :
    Confined (m.gpr .rsp - BitVec.ofNat 64 (preludeBytes bytes.length))
      (preludeBytes bytes.length) m.memory (filled m bytes) := by
  obtain ⟨enough, bounded, -⟩ := preludeBytes_bounds bytes.length
  have copy : Confined (m.gpr .rsp - BitVec.ofNat 64 (preludeBytes bytes.length))
      (preludeBytes bytes.length) (saved m) ((saved m).store
        (m.gpr .rsp - BitVec.ofNat 64 (preludeBytes bytes.length) + BitVec.ofNat 64 0) bytes) :=
    .store _ (by omega) (by omega)
  rw [BitVec.add_zero] at copy
  exact (saved_confined m (by omega) (by omega)).trans copy

theorem filled_load (m : Machine) {bytes : List Byte} (short : bytes.length < 2 ^ 63) :
    (filled m bytes).load (m.gpr .rsp - BitVec.ofNat 64 (preludeBytes bytes.length)) bytes.length =
      bytes :=
  Memory.load_store _ _ _ (by omega)

/-- What a return relies on, and what holds from the opening on up to the call. -/
structure Opened (m after : Machine) : Prop where
  rbp : after.gpr .rbp = m.gpr .rsp - BitVec.ofNat 64 8
  kept : ∀ register ∈ [.r13, .r14, .r15], after.gpr register = m.gpr register
  frame : Framed m after.memory

theorem Opened.onwards {m middle after : Machine} (opened : Opened m middle)
    (same : ∀ register ∈ [.rbp, .r13, .r14, .r15], after.gpr register = middle.gpr register)
    (memory : after.memory = middle.memory) : Opened m after where
  rbp := (same .rbp List.mem_cons_self).trans opened.rbp
  kept register member := (same register (List.mem_cons_of_mem _ member)).trans
    (opened.kept register member)
  frame := by
    rw [memory]
    exact opened.frame

/-- The prelude of an ordinary trampoline, whatever registers it moves its parameters to. The moves
come before the copy because the copy takes the registers of the first two parameters and `rcx`. -/
theorem prelude_leads {pairs : List (Gpr × Gpr)} (distinct : (pairs.map Prod.fst).Nodup)
    (targets : ∀ target ∈ pairs.map Prod.fst, target ∈ [.rbx, .r10, .r11, .r12])
    (sources : ∀ source ∈ pairs.map Prod.snd, source ∈ [.rdx, .rcx, .r8, .r9])
    (m : Machine) {bytes : List Byte} (size : m.gpr .rdi = BitVec.ofNat 64 bytes.length)
    (short : bytes.length < 2 ^ 63) (upward : m.direction = false)
    (holds : m.memory.load (m.gpr .rsi) bytes.length = bytes)
    (apart : Apart (m.gpr .rsi) bytes.length
      (m.gpr .rsp - BitVec.ofNat 64 (preludeBytes bytes.length)) (preludeBytes bytes.length)) :
    ∃ after, Leads (opening ++ moves pairs ++ copyStack) m after ∧ Opened m after ∧
      (∀ pair ∈ pairs, after.gpr pair.1 = m.gpr pair.2) ∧
      after.gpr .rsp = m.gpr .rsp - BitVec.ofNat 64 (preludeBytes bytes.length) ∧
      after.memory = filled m bytes := by
  obtain ⟨enough, bounded, -⟩ := preludeBytes_bounds bytes.length
  have roles : ∀ r ∈ [Gpr.rbx, .r10, .r11, .r12],
      r ∉ [Gpr.rdx, .rcx, .r8, .r9] ∧ r ∉ [Gpr.rax, .rcx, .rdi, .rsi, .rsp] := by decide
  obtain ⟨framed, first, rbp, rsp, kept, written, direction⟩ := opening_leads m
  obtain ⟨ready, second, moved, others, same, flag⟩ := moves_leads distinct
    (fun target member source => (roles target (targets target member)).1 (sources target source))
    framed
  have untouched {register : Gpr} (other : register ∉ [.rbx, .r10, .r11, .r12]) :
      ready.gpr register = framed.gpr register :=
    others register fun member => other (targets register member)
  have rdi : ready.gpr .rdi = BitVec.ofNat 64 bytes.length := by
    rw [untouched (by decide), kept .rdi (by decide), size]
  have rsi : ready.gpr .rsi = m.gpr .rsi := by
    rw [untouched (by decide), kept .rsi (by decide)]
  have floor : ready.gpr .rsp - BitVec.ofNat 64 (roundUp bytes.length 16) =
      m.gpr .rsp - BitVec.ofNat 64 (preludeBytes bytes.length) := by
    rw [untouched (by decide), rsp, BitVec.sub_sub, ← BitVec.ofNat_add, preludeBytes]
  have source := apart.shorten (show bytes.length ≤ preludeBytes bytes.length by omega)
  rw [← rsi, ← floor] at source
  obtain ⟨after, third, bottom, rest, memory⟩ :=
    copyStack_leads ready rdi short (flag.trans (direction.trans upward)) source
  have whole : after.memory = filled m bytes := by
    have confined := saved_confined m (show 24 ≤ preludeBytes bytes.length by omega) (by omega)
    rw [memory, floor, rsi, same, written, Memory.load_confined confined apart, holds, filled]
  refine ⟨after, (first.append second).append third, ⟨?_, ?_, ?_⟩, ?_, bottom.trans floor, whole⟩
  · rw [rest .rbp (by decide), untouched (by decide), rbp]
  · intro register member
    have spared : ∀ r ∈ [Gpr.r13, .r14, .r15], r ∉ [Gpr.rax, .rcx, .rdi, .rsi, .rsp] ∧
      r ∉ [Gpr.rbx, .r10, .r11, .r12] ∧ r ∉ [Gpr.rsp, .rbp] := by decide
    obtain ⟨uncopied, unmoved, unopened⟩ := spared register member
    rw [rest register uncopied, untouched unmoved, kept register unopened]
  · rw [whole]
    exact filled_framed m short
  · intro pair member
    have uncopied := (roles pair.1 (targets pair.1 (List.mem_map_of_mem member))).2
    have unopened : ∀ r ∈ [Gpr.rdx, .rcx, .r8, .r9], r ∉ [Gpr.rsp, .rbp] := by decide
    rw [rest pair.1 uncopied, moved pair member,
      kept pair.2 (unopened _ (sources pair.2 (List.mem_map_of_mem member)))]

end ForeignCall.Trampoline
