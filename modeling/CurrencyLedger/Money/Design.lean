import CurrencyLedger.Money.FeePolicy

/-!
Currencies that are registered on the ledger: the amount they started with, the account that got it,
their policy, and the total that has been issued since.
-/

namespace CurrencyLedger

structure CurrencyPolicy where
  newAccountMinimum : Int
  fee : FeePolicy
deriving DecidableEq

namespace CurrencyPolicy

def check (p : CurrencyPolicy) : Except ValidationError Unit :=
  if p.newAccountMinimum < 0 then .error (.design (.negativeAccountMinimum p.newAccountMinimum))
  else p.fee.check

/-- A policy that is in order. -/
def make (newAccountMinimum : Int) (fee : FeePolicy) : Except ValidationError CurrencyPolicy := do
  let policy : CurrencyPolicy := ⟨newAccountMinimum, fee⟩
  policy.check
  return policy

end CurrencyPolicy

structure CurrencyDesign where
  amount : Amount
  genesisAccount : Address
  policy : CurrencyPolicy
  aggregate : Int
deriving DecidableEq

namespace CurrencyDesign

def currency (d : CurrencyDesign) : CurrencyId :=
  d.amount.currency

def check (d : CurrencyDesign) : Except ValidationError Unit := do
  d.amount.checkPositive
  if d.aggregate < 0 then .error (.design (.negativeAggregate d.aggregate))
  else if d.genesisAccount.isZero then .error (.design .zeroGenesisAccount)
  else d.policy.check

/-- A design whose issued total is the amount it starts with. -/
def initial (amount : Amount) (genesisAccount : Address) (policy : CurrencyPolicy) :
    CurrencyDesign :=
  ⟨amount, genesisAccount, policy, amount.magnitude⟩

/-- An initial design that is in order. -/
def make (amount : Amount) (genesisAccount : Address) (policy : CurrencyPolicy) :
    Except ValidationError CurrencyDesign := do
  let design := initial amount genesisAccount policy
  design.check
  return design

def issue (d : CurrencyDesign) (issued : Int) : CurrencyDesign :=
  { d with aggregate := d.aggregate + issued }

def withPolicy (d : CurrencyDesign) (policy : CurrencyPolicy) : CurrencyDesign :=
  { d with policy := policy }

end CurrencyDesign

namespace Wire

def currencyPolicy : Wire CurrencyPolicy :=
  record "struct CurrencyPolicy"
    (.cons (.of "new_account_min_balance" magnitude) <| .cons (.of "feeer" feePolicy) .nil)
    (fun p => (p.newAccountMinimum, p.fee, ())) (fun (minimum, fee, ()) => ⟨minimum, fee⟩)

def currencyDesign : Wire CurrencyDesign :=
  record "struct CurrencyDesign"
    (.cons (.of "amount" amount) <| .cons (.of "genesis_account" address) <|
      .cons (.of "policy" currencyPolicy) <| .cons (.of "aggregate" magnitude) .nil)
    (fun d => (d.amount, d.genesisAccount, d.policy, d.aggregate, ()))
    (fun (amount, account, policy, aggregate, ()) => ⟨amount, account, policy, aggregate⟩)

end Wire

end CurrencyLedger
