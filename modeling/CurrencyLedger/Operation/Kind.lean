import CurrencyLedger.Wire.Basic

/-!
The kinds of operations.
-/

namespace CurrencyLedger

inductive OperationKind where
  | createAccounts
  | transfers
  | keyUpdater
  | currencyRegister
  | currencyPolicyUpdater
  | mint
  | suffrageCandidate
  | suffrageJoin
  | suffrageDisjoin
  | genesisCurrencies
deriving DecidableEq

namespace OperationKind

def all : List OperationKind :=
  [createAccounts, transfers, keyUpdater, currencyRegister, currencyPolicyUpdater, mint,
   suffrageCandidate, suffrageJoin, suffrageDisjoin, genesisCurrencies]

theorem mem_all (kind : OperationKind) : kind ∈ all := by
  cases kind <;> decide

def name : OperationKind → String
  | createAccounts => "create-accounts"
  | transfers => "transfers"
  | keyUpdater => "key-updater"
  | currencyRegister => "currency-register"
  | currencyPolicyUpdater => "currency-policy-updater"
  | mint => "mint"
  | suffrageCandidate => "suffrage-candidate"
  | suffrageJoin => "suffrage-join"
  | suffrageDisjoin => "suffrage-disjoin"
  | genesisCurrencies => "genesis-currencies"

/-- The name of a kind in documents. -/
def wireName : OperationKind → String
  | createAccounts => "CreateAccounts"
  | transfers => "Transfers"
  | keyUpdater => "KeyUpdater"
  | currencyRegister => "CurrencyRegister"
  | currencyPolicyUpdater => "CurrencyPolicyUpdater"
  | mint => "Mint"
  | suffrageCandidate => "SuffrageCandidate"
  | suffrageJoin => "SuffrageJoin"
  | suffrageDisjoin => "SuffrageDisjoin"
  | genesisCurrencies => "GenesisCurrencies"

/-- Operations of these kinds are signed by members of the suffrage, the others by account keys. -/
def isNodeLevel : OperationKind → Bool
  | createAccounts | transfers | keyUpdater => false
  | _ => true

end OperationKind

def Wire.operationKind : Wire OperationKind :=
  choice "variant identifier" OperationKind.all OperationKind.wireName

end CurrencyLedger
