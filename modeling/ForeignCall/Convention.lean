/-! Platforms and the calling conventions a caller may ask for. A convention has a stable numeric
identifier and a name; identifiers are distinct, so the table can be read in both directions. -/
namespace ForeignCall

/-- A platform fixes the argument registers of ordinary calls. -/
inductive Platform where
  | unix
  | windows
  deriving DecidableEq

inductive Convention where
  | standard
  | x86Cdecl
  | x86Win32Std
  | x86Win32FastMs
  | x86Win32FastGnu
  | x86Win32ThisMs
  | x86Win32ThisGnu
  | x64Win64
  | x64SysV
  | ppc32Darwin
  | armArmEabi
  | armThumbEabi
  | mips32Eabi
  | ppc32SysV
  | armArm
  | armThumb
  | mips32O32
  | mips64N32
  | mips64N64
  | x86Plan9
  | sparc32
  | sparc64
  | arm64
  | ppc64
  | armArmHf
  | ellipsis
  | ellipsisVarargs
  | systemStandard
  | systemX86Int80hLinux
  | systemX86Int80hBsd
  | systemX64SysV
  | systemPpc32
  | systemPpc64
  deriving DecidableEq

namespace Convention

def all : List Convention := [
  .standard, .x86Cdecl, .x86Win32Std, .x86Win32FastMs, .x86Win32FastGnu, .x86Win32ThisMs,
  .x86Win32ThisGnu, .x64Win64, .x64SysV, .ppc32Darwin, .armArmEabi, .armThumbEabi, .mips32Eabi,
  .ppc32SysV, .armArm, .armThumb, .mips32O32, .mips64N32, .mips64N64, .x86Plan9, .sparc32,
  .sparc64, .arm64, .ppc64, .armArmHf, .ellipsis, .ellipsisVarargs, .systemStandard,
  .systemX86Int80hLinux, .systemX86Int80hBsd, .systemX64SysV, .systemPpc32, .systemPpc64]

def identifier : Convention → Nat
  | standard => 0
  | x86Cdecl => 1
  | x86Win32Std => 2
  | x86Win32FastMs => 3
  | x86Win32FastGnu => 4
  | x86Win32ThisMs => 5
  | x86Win32ThisGnu => 6
  | x64Win64 => 7
  | x64SysV => 8
  | ppc32Darwin => 9
  | armArmEabi => 10
  | armThumbEabi => 11
  | mips32Eabi => 12
  | ppc32SysV => 13
  | armArm => 14
  | armThumb => 15
  | mips32O32 => 16
  | mips64N32 => 17
  | mips64N64 => 18
  | x86Plan9 => 19
  | sparc32 => 20
  | sparc64 => 21
  | arm64 => 22
  | ppc64 => 23
  | armArmHf => 30
  | ellipsis => 100
  | ellipsisVarargs => 101
  | systemStandard => 200
  | systemX86Int80hLinux => 201
  | systemX86Int80hBsd => 202
  | systemX64SysV => 204
  | systemPpc32 => 210
  | systemPpc64 => 211

def name : Convention → String
  | standard => "CDefault"
  | x86Cdecl => "CX86Cdecl"
  | x86Win32Std => "CX86Win32Std"
  | x86Win32FastMs => "CX86Win32FastMs"
  | x86Win32FastGnu => "CX86Win32FastGnu"
  | x86Win32ThisMs => "CX86Win32ThisMs"
  | x86Win32ThisGnu => "CX86Win32ThisGnu"
  | x64Win64 => "CX64Win64"
  | x64SysV => "CX64SysV"
  | ppc32Darwin => "CPpc32Darwin"
  | armArmEabi => "CArmArmEabi"
  | armThumbEabi => "CArmThumbEabi"
  | mips32Eabi => "CMips32Eabi"
  | ppc32SysV => "CPpc32SysV"
  | armArm => "CArmArm"
  | armThumb => "CArmThumb"
  | mips32O32 => "CMips32O32"
  | mips64N32 => "CMips64N32"
  | mips64N64 => "CMips64N64"
  | x86Plan9 => "CX86Plan9"
  | sparc32 => "CSparc32"
  | sparc64 => "CSparc64"
  | arm64 => "CArm64"
  | ppc64 => "CPpc64"
  | armArmHf => "CArmArmHf"
  | ellipsis => "CEllipsis"
  | ellipsisVarargs => "CEllipsisVarargs"
  | systemStandard => "SysDefault"
  | systemX86Int80hLinux => "SysX86Int80hLinux"
  | systemX86Int80hBsd => "SysX86Int80hBsd"
  | systemX64SysV => "SysX64SyscallSysV"
  | systemPpc32 => "SysPpc32"
  | systemPpc64 => "SysPpc64"

/-- Identifiers from 200 on are reserved for system calls. -/
def isSystem (c : Convention) : Bool := 200 ≤ c.identifier

def ofIdentifier? (id : Int) : Option Convention := all.find? fun c => (c.identifier : Int) == id

theorem ofIdentifier?_identifier (c : Convention) : ofIdentifier? c.identifier = some c := by
  cases c <;> rfl

theorem ofIdentifier?_eq_some_iff {id : Int} {c : Convention} :
    ofIdentifier? id = some c ↔ (c.identifier : Int) = id := by
  constructor
  · intro found
    simpa using List.find?_some found
  · rintro rfl
    exact ofIdentifier?_identifier c

end Convention

namespace Platform

/-- The platform of a context that names none. -/
def host : Platform := .unix

def name : Platform → String
  | unix => "Unix"
  | windows => "Windows"

/-- The convention of ordinary compiled functions. -/
def native : Platform → Convention
  | unix => .x64SysV
  | windows => .x64Win64

end Platform
end ForeignCall
