import ForeignCall.X64.Encoding

/-! The trampolines: machine code that unpacks an argument area into the registers and the stack of
a call. All are entered like System V functions with the sizes and addresses of their blocks as
parameters, so the parameters are moved out of the way before the argument registers are loaded.
The address of the results stays in `rbx`, and `rbp` finds the saved registers again whatever the
callee has done to the copied arguments. -/
namespace ForeignCall.Trampoline

open X64

def opening : List Instr := [.push .rbp, .move .rbp .rsp, .push .rbx, .push .r12]

/-- Copies `rdi` bytes from `rsi` to fresh stack room, rounded up to a multiple of sixteen. -/
def copyStack : List Instr := [
  .move .rax .rdi, .aluImm .add .rax 15, .aluImm .and .rax (-16), .alu .sub .rsp .rax,
  .move .rcx .rdi, .move .rdi .rsp, .repMovsb]

def closing : List Instr := [
  .store ⟨.rbx, 0⟩ .rax, .store ⟨.rbx, 8⟩ .rdx, .storeXmm ⟨.rbx, 16⟩ 0, .storeXmm ⟨.rbx, 24⟩ 1,
  .lea .rsp ⟨.rbp, -16⟩, .pop .r12, .pop .rbx, .pop .rbp, .ret]

def loadRow (base : Gpr) (targets : List Gpr) : List Instr :=
  targets.mapIdx fun i target => .load target ⟨base, 8 * i⟩

def loadXmmRow (base : Gpr) (targets : List Xmm) : List Instr :=
  targets.mapIdx fun i target => .loadXmm target ⟨base, 8 * i⟩

def sysvIntegers : List Gpr := [.rdi, .rsi, .rdx, .rcx, .r8, .r9]

def sysvFloats : List Xmm := [0, 1, 2, 3, 4, 5, 6, 7]

def win64Positions : List (Gpr × Xmm) := [(.rcx, 0), (.rdx, 1), (.r8, 2), (.r9, 3)]

def systemIntegers : List Gpr := [.rdi, .rsi, .rdx, .r10, .r8, .r9]

/-- Bytes below the stack arguments that a Microsoft x64 callee may use. -/
def shadowBytes : Nat := 32

/-- Parameters: stack size, stack bytes, integer slots, float slots, target, results. A variadic
callee reads in `rax` that up to eight vector registers are in use. -/
def sysv : List Instr :=
  opening ++ [.move .rbx .r9, .move .r11 .r8, .move .r10 .rcx, .move .r12 .rdx] ++ copyStack ++
    loadXmmRow .r10 sysvFloats ++ loadRow .r12 sysvIntegers ++
    [.moveLow .rax 8, .call .r11] ++ closing

/-- Parameters: stack size, stack bytes, slots, target, results. Each slot goes to both registers of
its position. -/
def win64 : List Instr :=
  opening ++ [.move .rbx .r8, .move .r11 .rcx, .move .r12 .rdx] ++ copyStack ++
    [.aluImm .sub .rsp shadowBytes] ++
    (win64Positions.mapIdx fun i (gpr, xmm) => [.load gpr ⟨.r12, 8 * i⟩, .moveXmm xmm gpr]).flatten ++
    [.call .r11] ++ closing

/-- Parameters: integer slots, call number, results. -/
def system : List Instr :=
  [.push .rbx, .move .rbx .rdx, .move .rax .rsi, .move .r11 .rdi] ++ loadRow .r11 systemIntegers ++
    [.syscall, .store ⟨.rbx, 0⟩ .rax, .store ⟨.rbx, 8⟩ .rdx, .pop .rbx, .ret]

end ForeignCall.Trampoline
