import ForeignCall.Proofs.Splitting
import ForeignCall.Proofs.Unrolling

/-! Scalars in structures. A structure around a single element is not seen in the layout, and neither
is another one around it. So a scalar as the only member of a structure, at any depth, goes where the
scalar alone would go, as long as registers are left: the one is classified by its eightbyte, the
other by its type. What differs is the filling of the word, with zeros or by the sign, and the copy on
the stack that every structure has. -/
namespace ForeignCall

/-! Structures around a single element. -/

namespace Layout

variable {element : Element Layout}

end Layout

namespace Scalar

variable (type : Scalar)

end Scalar

namespace Argument

/-- The bits of the value, with zeros above them. -/
def zeroExtended (value : Argument) : Word :=
  (value.word.setWidth (8 * value.type.size)).setWidth 64

theorem bytes_length (value : Argument) : value.bytes.length = value.type.size := digits_length ..

theorem ofBytes_bytes (value : Argument) : Word.ofBytes value.bytes = value.zeroExtended := by
  apply BitVec.eq_of_toNat_eq
  simp [Word.ofBytes, bytes, numeral_digits, zeroExtended, pow_mul]

end Argument

/-! Pushes of words. -/

namespace RegisterFile

end RegisterFile

namespace ArgumentArea

end ArgumentArea

end ForeignCall
