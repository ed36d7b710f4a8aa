import ForeignCall.Bytes

/-! Executable copies of machine code. A region is never empty, as nothing can be mapped at length
zero, but remembers how much of it is code. -/
namespace ForeignCall

structure CodeRegion where
  mapped : List Byte
  length : Nat
  deriving DecidableEq

namespace CodeRegion

def ofCode (code : List Byte) : CodeRegion :=
  ⟨code ++ List.replicate (max code.length 1 - code.length) 0, code.length⟩

def code (region : CodeRegion) : List Byte := region.mapped.take region.length

end CodeRegion
end ForeignCall
