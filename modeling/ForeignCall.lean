import ForeignCall.CodeRegion
import ForeignCall.Description
import ForeignCall.Layout.Declaration
import ForeignCall.Proofs.Alignment
import ForeignCall.Proofs.AllOrNothing
import ForeignCall.Proofs.Balance
import ForeignCall.Proofs.Checked
import ForeignCall.Proofs.DirectUse
import ForeignCall.Proofs.Footprint
import ForeignCall.Proofs.Independence
import ForeignCall.Proofs.Nesting
import ForeignCall.Proofs.Packing
import ForeignCall.Proofs.Padding
import ForeignCall.Proofs.Refusal
import ForeignCall.Proofs.Return
import ForeignCall.Proofs.Reuse
import ForeignCall.Proofs.RoundTrip
import ForeignCall.Proofs.Selection
import ForeignCall.Proofs.Splitting
import ForeignCall.Proofs.SystemCall
import ForeignCall.Proofs.Unrolling
import ForeignCall.Proofs.Wrapping
