import CurrencyLedger.Hint
import CurrencyLedger.Proofs.Wire.RoundTrip

/-!
The three types whose documents are tagged. Together they have the known hints for tags, and every
value is written with its tag in front, which is the one that it is read with.
-/

namespace CurrencyLedger

open Traversal

/-- The types whose kinds of values are told apart by tags. -/
inductive Family where
  | fact
  | payload
  | feePolicy

namespace Family

def Value : Family → Type
  | fact => Fact
  | payload => Payload
  | feePolicy => FeePolicy

def cases : (family : Family) → List (Case family.Value)
  | fact => Fact.cases
  | payload => Payload.cases
  | feePolicy => FeePolicy.cases

def wire (family : Family) : Wire family.Value :=
  .tagged family.cases

def tags (family : Family) : List String :=
  family.cases.map (·.tag)

theorem faithful_wire (family : Family) : family.wire.Faithful Node.depthLimit := by
  cases family with
  | fact => exact Wire.faithful_fact
  | payload => exact Wire.faithful_payload
  | feePolicy => exact Wire.faithful_feePolicy

end Family

end CurrencyLedger
