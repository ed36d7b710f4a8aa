import ForeignCall.Convention

/-! Argument-passing schemes. A convention is usable on a platform when some scheme implements it
there; `Platform.scheme?` is that relation. -/
namespace ForeignCall

/-- How arguments are placed: for ordinary functions of one platform, or for system calls. -/
inductive Scheme where
  | sysv
  | win64
  | syscall
  deriving DecidableEq

def Scheme.name : Scheme → String
  | sysv => "GeneralSysV"
  | win64 => "GeneralWin64"
  | syscall => "SyscallSysV"

def Scheme.syscallLimit : Nat := 6

namespace Platform

def general : Platform → Scheme
  | unix => .sysv
  | windows => .win64

/-- Variadic functions are called like any other, and system calls exist on Unix alone. -/
def scheme? (platform : Platform) : Convention → Option Scheme
  | .standard | .ellipsis | .ellipsisVarargs => some platform.general
  | .systemStandard | .systemX64SysV => if platform = .unix then some .syscall else none
  | c => if c = platform.native then some platform.general else none

end Platform
end ForeignCall
