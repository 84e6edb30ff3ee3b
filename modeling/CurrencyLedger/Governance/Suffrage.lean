import CurrencyLedger.Collection.KeyedList
import CurrencyLedger.Governance.Height
import CurrencyLedger.Identity.Address

/-!
The suffrage: the members that may sign for the network, and the candidates that wait to become
members. Both are lists sorted by address, with no address twice.
-/

namespace CurrencyLedger

structure Member where
  address : Address
  key : PublicKey
  /-- The height from which the member counts. -/
  start : Height
deriving DecidableEq

structure Candidate where
  address : Address
  key : PublicKey
  start : Height
  deadline : Height
deriving DecidableEq

def Candidate.isExpired (c : Candidate) (height : Height) : Bool :=
  c.deadline < height

abbrev Members := KeyedList fun m : Member => m.address.text

abbrev Candidates := KeyedList fun c : Candidate => c.address.text

namespace Wire

def member : Wire Member :=
  record "struct SuffrageNode"
    (.cons (.of "address" address) <| .cons (.of "publickey" publicKey) <|
      .cons (.of "start" height) .nil)
    (fun m => (m.address, m.key, m.start, ()))
    (fun (address, key, start, ()) => ⟨address, key, start⟩)

def candidate : Wire Candidate :=
  record "struct SuffrageCandidate"
    (.cons (.of "address" address) <| .cons (.of "publickey" publicKey) <|
      .cons (.of "start" height) <| .cons (.of "deadline" height) .nil)
    (fun c => (c.address, c.key, c.start, c.deadline, ()))
    (fun (address, key, start, deadline, ()) => ⟨address, key, start, deadline⟩)

/-- The member `nodes` that holds the items of a sorted list. -/
def nodesFields {α : Type} (item : Wire α) : Fields [List α] :=
  .cons (.of "nodes" item.list) .nil

/-- Items may be read in any order; of several with one address the first is kept. -/
def keyedList {α : Type} (item : Wire α) (key : α → String) : Wire (KeyedList key) :=
  record "struct Raw" (nodesFields item) (fun m => (m.toList, ()))
    (fun (items, ()) => .ofList items)

def members : Wire Members :=
  keyedList member _

def candidates : Wire Candidates :=
  keyedList candidate _

end Wire

end CurrencyLedger
