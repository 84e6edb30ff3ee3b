import CurrencyLedger.Ledger.Record

/-!
Changes that operations make to records. A change replaces a payload, or adds members to a set or
takes them away.
-/

namespace CurrencyLedger

inductive Strategy where
  | replace
  | insert
  | remove
deriving DecidableEq

def Strategy.all : List Strategy := [replace, insert, remove]

def Strategy.name : Strategy → String
  | replace => "Replace"
  | insert => "Insert"
  | remove => "Remove"

structure Change where
  key : String
  payload : Payload
  strategy : Strategy

namespace Change

def balance (address : Address) (amount : Amount) : Change :=
  ⟨RecordKey.balance address amount.currency, .balance amount, .replace⟩

def account (a : Account) : Change :=
  ⟨RecordKey.account a.address, .account a, .replace⟩

def design (d : CurrencyDesign) : Change :=
  ⟨RecordKey.design d.currency, .design d, .replace⟩

def networkPolicy (p : NetworkPolicy) : Change :=
  ⟨RecordKey.networkPolicy, .networkPolicy p, .replace⟩

def member (m : Member) (strategy : Strategy) : Change :=
  ⟨RecordKey.suffrage, .members (.ofList [m]), strategy⟩

def candidate (c : Candidate) (strategy : Strategy) : Change :=
  ⟨RecordKey.candidates, .candidates (.ofList [c]), strategy⟩

end Change

namespace Wire

def strategy : Wire Strategy :=
  choice "variant identifier" Strategy.all Strategy.name

def change : Wire Change :=
  record "struct StateMergeValue"
    (.cons (.of "key" string) <| .cons (.of "value" payload) <|
      .cons (.of "strategy" strategy) .nil)
    (fun c => (c.key, c.payload, c.strategy, ()))
    (fun (key, payload, strategy, ()) => ⟨key, payload, strategy⟩)

end Wire

end CurrencyLedger
