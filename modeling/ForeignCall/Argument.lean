import ForeignCall.Bytes
import ForeignCall.Scalar

/-! Scalar argument values. Every scalar fills one 64-bit word: integers by sign extension, a truth
value as 0 or 1, a `float` as its 32 bits with zeros above, all others as they are. Floating-point
values only ever appear as their bits, so no payload or sign is lost. -/
namespace ForeignCall

inductive Argument where
  | bool (value : Bool)
  | char (value : BitVec 8)
  | short (value : BitVec 16)
  | int (value : BitVec 32)
  | long (value : Word)
  | longLong (value : Word)
  | float (bits : BitVec 32)
  | double (bits : Word)
  | pointer (address : Word)
  deriving DecidableEq

namespace Argument

def type : Argument → Scalar
  | bool _ => .bool
  | char _ => .char
  | short _ => .short
  | int _ => .int
  | long _ => .long
  | longLong _ => .longLong
  | float _ => .float
  | double _ => .double
  | pointer _ => .pointer

def registerClass (argument : Argument) : RegisterClass := argument.type.registerClass

/-- The word that stands for the value in a register or in a stack slot. -/
def word : Argument → Word
  | bool value => if value then 1 else 0
  | char value => value.signExtend 64
  | short value => value.signExtend 64
  | int value => value.signExtend 64
  | long value | longLong value => value
  | float bits => bits.setWidth 64
  | double bits => bits
  | pointer address => address

/-- The bytes of the value in memory. -/
def bytes (argument : Argument) : List Byte := digits argument.type.size argument.word.toNat

end Argument
end ForeignCall
