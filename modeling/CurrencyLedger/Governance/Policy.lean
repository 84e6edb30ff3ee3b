import CurrencyLedger.Governance.Height
import CurrencyLedger.Validation

/-!
The share of members that has to sign, and the limits of membership.
-/

namespace CurrencyLedger

/-- A share of the members in percent. -/
structure Threshold where
  percent : Nat
  range : 1 ≤ percent ∧ percent ≤ 100
deriving DecidableEq

namespace Threshold

def make (percent : Nat) : Except ValidationError Threshold :=
  if range : 1 ≤ percent ∧ percent ≤ 100 then .ok ⟨percent, range⟩ else .error (.threshold percent)

def standard : Threshold := ⟨67, by decide⟩

/-- The share of so many members, rounded up, and at least one. -/
def required (t : Threshold) (members : Nat) : Nat :=
  max ((members * t.percent + 99) / 100) 1

end Threshold

structure NetworkPolicy where
  maxMembers : UInt64
  candidateLifespan : UInt64
deriving DecidableEq

namespace NetworkPolicy

def make (maxMembers candidateLifespan : UInt64) : Except ValidationError NetworkPolicy :=
  if maxMembers = 0 then .error (.networkPolicy .noMembers)
  else if candidateLifespan = 0 then .error (.networkPolicy .noLifespan)
  else .ok ⟨maxMembers, candidateLifespan⟩

end NetworkPolicy

namespace Wire

def threshold : Wire Threshold :=
  refine uint8 (fun t => UInt8.ofNat t.percent) (fun n => Threshold.make n.toNat)
    ValidationError.message

def networkPolicy : Wire NetworkPolicy :=
  record "struct NetworkPolicy"
    (.cons (.of "max_suffrage_size" uint64) <|
      .cons (.of "suffrage_candidate_lifespan" uint64) .nil)
    (fun p => (p.maxMembers, p.candidateLifespan, ()))
    (fun (members, lifespan, ()) => ⟨members, lifespan⟩)

end Wire

end CurrencyLedger
