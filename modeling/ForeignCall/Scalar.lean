/-! Scalar types of the C language on a 64-bit target, and the two register classes. -/
namespace ForeignCall

inductive RegisterClass where
  | integer
  | float
  deriving DecidableEq

inductive Scalar where
  | bool
  | char
  | short
  | int
  | long
  | longLong
  | float
  | double
  | pointer
  deriving DecidableEq

namespace Scalar

def all : List Scalar := [.bool, .char, .short, .int, .long, .longLong, .float, .double, .pointer]

def name : Scalar → String
  | bool => "Bool"
  | char => "Char"
  | short => "Short"
  | int => "Int"
  | long => "Long"
  | longLong => "LongLong"
  | float => "Float"
  | double => "Double"
  | pointer => "Pointer"

def size : Scalar → Nat
  | bool | char => 1
  | short => 2
  | int | float => 4
  | long | longLong | double | pointer => 8

/-- Scalars are naturally aligned: to their own size. -/
def alignment (type : Scalar) : Nat := type.size

def registerClass : Scalar → RegisterClass
  | float | double => .float
  | _ => .integer

theorem size_pos (type : Scalar) : 0 < type.size := by cases type <;> decide

theorem size_le (type : Scalar) : type.size ≤ 8 := by cases type <;> decide

theorem size_dvd (type : Scalar) : type.size ∣ 8 := by cases type <;> decide

end Scalar
end ForeignCall
