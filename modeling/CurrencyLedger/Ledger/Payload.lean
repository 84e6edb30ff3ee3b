import CurrencyLedger.Governance.Policy
import CurrencyLedger.Governance.Suffrage
import CurrencyLedger.Money.Design

/-!
What a record of the ledger can hold.
-/

namespace CurrencyLedger

inductive Payload where
  | account (account : Account)
  | balance (amount : Amount)
  | design (design : CurrencyDesign)
  | members (members : Members)
  | candidates (candidates : Candidates)
  | networkPolicy (policy : NetworkPolicy)

namespace Payload

inductive Kind where
  | account
  | balance
  | design
  | members
  | candidates
  | networkPolicy
deriving DecidableEq

def Kind.name : Kind → String
  | .account => "account"
  | .balance => "balance"
  | .design => "currency design"
  | .members => "suffrage"
  | .candidates => "suffrage candidates"
  | .networkPolicy => "network policy"

def Kind.hint : Kind → String
  | .account => "account-state-value-v0.0.1"
  | .balance => "balance-state-value-v0.0.1"
  | .design => "currency-design-state-value-v0.0.1"
  | .members => "suffrage-nodes-state-value-v0.0.1"
  | .candidates => "suffrage-candidates-state-value-v0.0.1"
  | .networkPolicy => "network-policy-state-value-v0.0.1"

def kind : Payload → Kind
  | .account _ => .account
  | .balance _ => .balance
  | .design _ => .design
  | .members _ => .members
  | .candidates _ => .candidates
  | .networkPolicy _ => .networkPolicy

open Wire

def cases : List (Case Payload) :=
  [.record (Kind.hint .account) "struct AccountStateValue" (.cons (.of "account" Wire.account) .nil)
    (fun
      | .account a => some (a, ())
      | _ => none)
    (fun (a, ()) => .account a),
   .record (Kind.hint .balance) "struct BalanceStateValue" (.cons (.of "amount" amount) .nil)
    (fun
      | .balance a => some (a, ())
      | _ => none)
    (fun (a, ()) => .balance a),
   .record (Kind.hint .design) "struct CurrencyDesignStateValue"
    (.cons (.of "design" currencyDesign) .nil)
    (fun
      | .design d => some (d, ())
      | _ => none)
    (fun (d, ()) => .design d),
   .record (Kind.hint .members) "struct Raw" (nodesFields member)
    (fun
      | .members m => some (m.toList, ())
      | _ => none)
    (fun (items, ()) => .members (.ofList items)),
   .record (Kind.hint .candidates) "struct Raw" (nodesFields candidate)
    (fun
      | .candidates c => some (c.toList, ())
      | _ => none)
    (fun (items, ()) => .candidates (.ofList items)),
   .record (Kind.hint .networkPolicy) "struct NetworkPolicyStateValue"
    (.cons (.of "policy" Wire.networkPolicy) .nil)
    (fun
      | .networkPolicy p => some (p, ())
      | _ => none)
    (fun (p, ()) => .networkPolicy p)]

end Payload

def Wire.payload : Wire Payload :=
  tagged Payload.cases

end CurrencyLedger
