import ForeignCall.Proofs.AllOrNothing
import ForeignCall.Proofs.Course
import ForeignCall.Proofs.Refusal

/-! Arguments of a system call. While a context makes system calls, every scalar is a word for the
next integer register, up to the sixth, whatever has been put there before; what comes later, and any
structure, is refused. Nothing but those registers ever changes, and nothing is reported. -/
namespace ForeignCall

namespace CallArgument

def operation : CallArgument → Context.Operation
  | scalar value => .push value
  | struct layout data => .pushStruct layout data

end CallArgument

namespace RegisterFile

end RegisterFile

namespace ArgumentArea

end ArgumentArea

namespace Context

end Context
end ForeignCall
