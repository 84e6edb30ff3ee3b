import CurrencyLedger.Governance.Height
import CurrencyLedger.Money.Design
import CurrencyLedger.Operation.Kind

/-!
Facts: what an operation is to do. A fact is known by its hash; the token makes facts with the same
intent different.
-/

namespace CurrencyLedger

/-- An account to be created, with the amounts it starts with. -/
structure NewAccount where
  keys : KeySet
  amounts : List Amount
  scheme : AddressKind
deriving DecidableEq

def NewAccount.address (a : NewAccount) : Except KeyFault Address :=
  Address.derive a.keys a.scheme

structure Transfer where
  receiver : Address
  amounts : List Amount
deriving DecidableEq

structure Issue where
  receiver : Address
  amount : Amount
deriving DecidableEq

inductive Intent where
  | createAccounts (sender : Address) (items : List NewAccount)
  | transfers (sender : Address) (items : List Transfer)
  /-- New keys for an account; the fee is paid in the currency. -/
  | keyUpdater (target : Address) (keys : KeySet) (currency : CurrencyId)
  | currencyRegister (design : CurrencyDesign)
  | currencyPolicyUpdater (currency : CurrencyId) (policy : CurrencyPolicy)
  | mint (items : List Issue)
  | suffrageCandidate (address : Address) (key : PublicKey)
  | suffrageJoin (candidate : Address) (start : Height)
  | suffrageDisjoin (node : Address) (start : Height)
  /-- The first account and its currencies. -/
  | genesisCurrencies (nodeKey : PublicKey) (keys : KeySet) (designs : List CurrencyDesign)
deriving DecidableEq

def Intent.kind : Intent → OperationKind
  | .createAccounts .. => .createAccounts
  | .transfers .. => .transfers
  | .keyUpdater .. => .keyUpdater
  | .currencyRegister .. => .currencyRegister
  | .currencyPolicyUpdater .. => .currencyPolicyUpdater
  | .mint .. => .mint
  | .suffrageCandidate .. => .suffrageCandidate
  | .suffrageJoin .. => .suffrageJoin
  | .suffrageDisjoin .. => .suffrageDisjoin
  | .genesisCurrencies .. => .genesisCurrencies

structure Fact where
  token : List UInt8
  intent : Intent
deriving DecidableEq

def Fact.kind (f : Fact) : OperationKind :=
  f.intent.kind

namespace Wire

def newAccount : Wire NewAccount :=
  record "struct CreateAccountsItem"
    (.cons (.of "keys" keySet) <| .cons (.of "amounts" amount.list) <|
      .cons (.of "address_type" addressKind) .nil)
    (fun a => (a.keys, a.amounts, a.scheme, ()))
    (fun (keys, amounts, scheme, ()) => ⟨keys, amounts, scheme⟩)

def transfer : Wire Transfer :=
  record "struct TransfersItem"
    (.cons (.of "receiver" address) <| .cons (.of "amounts" amount.list) .nil)
    (fun t => (t.receiver, t.amounts, ())) (fun (receiver, amounts, ()) => ⟨receiver, amounts⟩)

def issue : Wire Issue :=
  record "struct MintItem"
    (.cons (.of "receiver" address) <| .cons (.of "amount" amount) .nil)
    (fun i => (i.receiver, i.amount, ())) (fun (receiver, amount, ()) => ⟨receiver, amount⟩)

/-- The members of a fact start with its token. -/
def factFields {ts : List Type} (rest : Fields ts) : Fields (List UInt8 :: ts) :=
  .cons (.of "token" hexBytes) rest

end Wire

namespace Fact

open Wire

/-- A kind of facts: `members?` takes the intent apart, `make` puts it together. -/
def case {ts : List Type} (tag title : String) (rest : Fields ts)
    (members? : Intent → Option (Tuple ts)) (make : Tuple ts → Intent) : Case Fact :=
  .record tag title (factFields rest)
    (fun f => (members? f.intent).map fun members => (f.token, members))
    (fun (token, members) => ⟨token, make members⟩)

def createAccountsFields : Fields [Address, List NewAccount] :=
  .cons (.of "sender" address) <| .cons (.of "items" newAccount.list) .nil

def transfersFields : Fields [Address, List Transfer] :=
  .cons (.of "sender" address) <| .cons (.of "items" transfer.list) .nil

def keyUpdaterFields : Fields [Address, KeySet, CurrencyId] :=
  .cons (.of "target" address) <| .cons (.of "keys" keySet) <|
    .cons (.of "currency" currencyId) .nil

def currencyRegisterFields : Fields [CurrencyDesign] :=
  .cons (.of "design" currencyDesign) .nil

def currencyPolicyUpdaterFields : Fields [CurrencyId, CurrencyPolicy] :=
  .cons (.of "currency" currencyId) <| .cons (.of "policy" currencyPolicy) .nil

def mintFields : Fields [List Issue] :=
  .cons (.of "items" issue.list) .nil

def suffrageCandidateFields : Fields [Address, PublicKey] :=
  .cons (.of "address" address) <| .cons (.of "publickey" publicKey) .nil

def suffrageJoinFields : Fields [Address, Height] :=
  .cons (.of "candidate" address) <| .cons (.of "start" height) .nil

def suffrageDisjoinFields : Fields [Address, Height] :=
  .cons (.of "node" address) <| .cons (.of "start" height) .nil

def genesisCurrenciesFields : Fields [PublicKey, KeySet, List CurrencyDesign] :=
  .cons (.of "genesis_node_key" publicKey) <| .cons (.of "keys" keySet) <|
    .cons (.of "designs" currencyDesign.list) .nil

def cases : List (Case Fact) :=
  [case "currency-create-accounts-fact-v0.0.1" "struct CreateAccountsFact" createAccountsFields
    (fun
      | .createAccounts sender items => some (sender, items, ())
      | _ => none)
    (fun (sender, items, ()) => .createAccounts sender items),
   case "currency-transfers-fact-v0.0.1" "struct TransfersFact" transfersFields
    (fun
      | .transfers sender items => some (sender, items, ())
      | _ => none)
    (fun (sender, items, ()) => .transfers sender items),
   case "currency-key-updater-fact-v0.0.1" "struct KeyUpdaterFact" keyUpdaterFields
    (fun
      | .keyUpdater target keys currency => some (target, keys, currency, ())
      | _ => none)
    (fun (target, keys, currency, ()) => .keyUpdater target keys currency),
   case "currency-register-fact-v0.0.1" "struct CurrencyRegisterFact" currencyRegisterFields
    (fun
      | .currencyRegister design => some (design, ())
      | _ => none)
    (fun (design, ()) => .currencyRegister design),
   case "currency-policy-updater-fact-v0.0.1" "struct CurrencyPolicyUpdaterFact"
    currencyPolicyUpdaterFields
    (fun
      | .currencyPolicyUpdater currency policy => some (currency, policy, ())
      | _ => none)
    (fun (currency, policy, ()) => .currencyPolicyUpdater currency policy),
   case "currency-mint-fact-v0.0.1" "struct MintFact" mintFields
    (fun
      | .mint items => some (items, ())
      | _ => none)
    (fun (items, ()) => .mint items),
   case "suffrage-candidate-fact-v0.0.1" "struct SuffrageCandidateFact" suffrageCandidateFields
    (fun
      | .suffrageCandidate address key => some (address, key, ())
      | _ => none)
    (fun (address, key, ()) => .suffrageCandidate address key),
   case "suffrage-join-fact-v0.0.1" "struct SuffrageJoinFact" suffrageJoinFields
    (fun
      | .suffrageJoin candidate start => some (candidate, start, ())
      | _ => none)
    (fun (candidate, start, ()) => .suffrageJoin candidate start),
   case "suffrage-disjoin-fact-v0.0.1" "struct SuffrageDisjoinFact" suffrageDisjoinFields
    (fun
      | .suffrageDisjoin node start => some (node, start, ())
      | _ => none)
    (fun (node, start, ()) => .suffrageDisjoin node start),
   case "currency-genesis-currencies-fact-v0.0.1" "struct GenesisCurrenciesFact"
    genesisCurrenciesFields
    (fun
      | .genesisCurrencies nodeKey keys designs => some (nodeKey, keys, designs, ())
      | _ => none)
    (fun (nodeKey, keys, designs, ()) => .genesisCurrencies nodeKey keys designs)]

end Fact

def Wire.fact : Wire Fact :=
  tagged Fact.cases

def Fact.hash (f : Fact) : Digest :=
  .ofMessage "CurrencyFact:" (Wire.fact.write f)

end CurrencyLedger
