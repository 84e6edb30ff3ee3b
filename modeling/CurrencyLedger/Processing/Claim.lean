import CurrencyLedger.Processing.Reason

/-!
Claims that operations make for one height. An operation that creates an account claims its address;
where each sender may have one operation only, operations also claim their sender or their currency.
-/

namespace CurrencyLedger

structure Claims where
  addresses : List Address
  senders : List Address
  currencies : List CurrencyId
deriving DecidableEq

namespace Claims

def none : Claims := ⟨[], [], []⟩

/-- A sender or a currency is claimed only under the strict rule. -/
def ofSender (strict : Bool) (sender : Address) : Claims :=
  { none with senders := if strict then [sender] else [] }

def ofCurrency (strict : Bool) (currency : CurrencyId) : Claims :=
  { none with currencies := if strict then [currency] else [] }

/-- What an operation claims. -/
def ofIntent (strict : Bool) : Intent → Except ValidationError Claims
  | .createAccounts sender items => do
    let targets ← (Intent.targets items).mapError .keys
    return { ofSender strict sender with addresses := targets }
  | .transfers sender _ => .ok (ofSender strict sender)
  | .keyUpdater target _ _ => .ok (ofSender strict target)
  | .currencyRegister design =>
    .ok { ofCurrency strict design.currency with addresses := [.zero design.currency] }
  | .currencyPolicyUpdater currency _ => .ok (ofCurrency strict currency)
  | .genesisCurrencies _ keys designs =>
    .ok { none with
      addresses := .ofKeySet keys :: designs.map fun d => .zero d.currency }
  | _ => .ok none

/-- The first of the new claims that is taken: addresses are looked at first, then the sender, then
currencies. -/
def conflict? (taken new : Claims) : Option Reason :=
  ((new.addresses.find? (· ∈ taken.addresses)).map .duplicatedAddress).or <|
    ((new.senders.find? (· ∈ taken.senders)).map .duplicatedSender).or <|
      (new.currencies.find? (· ∈ taken.currencies)).map .duplicatedCurrency

def union (taken new : Claims) : Claims :=
  ⟨new.addresses ++ taken.addresses, new.senders ++ taken.senders,
    new.currencies ++ taken.currencies⟩

end Claims

end CurrencyLedger
