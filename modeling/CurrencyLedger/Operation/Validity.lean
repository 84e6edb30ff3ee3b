import CurrencyLedger.Operation.Fact

/-!
What a fact must satisfy whatever the ledger holds.
-/

namespace CurrencyLedger

/-- One to ten positive amounts in different currencies. -/
def checkAmounts (amounts : List Amount) : Except ValidationError Unit :=
  if 1 ≤ amounts.length ∧ amounts.length ≤ 10 then
    Check.distinct
      (fun a => do
        a.checkPositive
        return a.currency)
      (fun currency => .fact (.currencyTwiceInItem currency)) amounts
  else .error (.fact (.amountCount amounts.length))

def checkItemCount (count : Nat) : Except ValidationError Unit :=
  if 1 ≤ count ∧ count ≤ 10 then .ok () else .error (.fact (.itemCount count))

def checkToken (token : List UInt8) : Except ValidationError Unit :=
  if 1 ≤ token.length ∧ token.length ≤ 100 then .ok ()
  else .error (.fact (.tokenLength token.length))

/-- The address of a new account that a sender can pay for. -/
def NewAccount.target (sender : Address) (a : NewAccount) : Except ValidationError Address := do
  let target ← a.address.mapError .keys
  checkAmounts a.amounts
  if target = sender then .error (.fact (.targetIsSender target)) else .ok target

def Transfer.target (sender : Address) (t : Transfer) : Except ValidationError Address := do
  checkAmounts t.amounts
  if t.receiver = sender then .error (.fact (.receiverIsSender t.receiver)) else .ok t.receiver

/-- The balance that an issue raises. -/
def Issue.target (i : Issue) : Except ValidationError (Address × CurrencyId) := do
  i.amount.checkPositive
  return (i.receiver, i.amount.currency)

/-- The currency of a design for a genesis account. -/
def CurrencyDesign.genesisCurrency (account : Address) (d : CurrencyDesign) :
    Except ValidationError CurrencyId := do
  d.check
  if d.genesisAccount = account then .ok d.currency
  else .error (.fact (.foreignGenesis d.currency d.genesisAccount account))

namespace Intent

def check : Intent → Except ValidationError Unit
  | .createAccounts sender items => do
    checkItemCount items.length
    Check.distinct (·.target sender) (fun target => .fact (.targetTwice target)) items
  | .transfers sender items => do
    checkItemCount items.length
    Check.distinct (·.target sender) (fun receiver => .fact (.receiverTwice receiver)) items
  | .keyUpdater target _ _ => if target.isZero then .error (.fact (.zeroTarget target)) else .ok ()
  | .currencyRegister design => design.check
  | .currencyPolicyUpdater _ policy => policy.check
  | .mint items => do
    checkItemCount items.length
    Check.distinct Issue.target
      (fun (receiver, currency) => .fact (.mintTwice receiver currency)) items
  | .suffrageCandidate .. => .ok ()
  | .suffrageJoin .. => .ok ()
  | .suffrageDisjoin .. => .ok ()
  | .genesisCurrencies _ keys designs => do
    checkItemCount designs.length
    Check.distinct (·.genesisCurrency (.ofKeySet keys))
      (fun currency => .fact (.currencyTwice currency)) designs

/-- The addresses of the accounts that an intent creates, in the order of its items. -/
def targets (items : List NewAccount) : Except KeyFault (List Address) :=
  items.mapM NewAccount.address

end Intent

def Fact.check (f : Fact) : Except ValidationError Unit := do
  checkToken f.token
  f.intent.check

end CurrencyLedger
