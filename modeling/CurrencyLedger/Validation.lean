import CurrencyLedger.Identity.Account
import CurrencyLedger.Money.Amount

/-!
What can be wrong with a value that needs no ledger to be judged.
-/

namespace CurrencyLedger

inductive AmountFault where
  | numeral (fault : Amount.NumeralFault)
  | notPositive (amount : Amount)
deriving DecidableEq

inductive FeeFault where
  | ratioRange (got : String)
  | ratioText (text : String)
  | negativeFixed (amount : Int)
  | negativeMinimum (minimum : Int)
  | maximumUnderMinimum (maximum minimum : Int)
deriving DecidableEq

inductive DesignFault where
  | negativeAccountMinimum (minimum : Int)
  | negativeAggregate (aggregate : Int)
  | zeroGenesisAccount
deriving DecidableEq

inductive PolicyFault where
  | noMembers
  | noLifespan
deriving DecidableEq

inductive FactFault where
  | tokenLength (length : Nat)
  | itemCount (count : Nat)
  | amountCount (count : Nat)
  | currencyTwiceInItem (currency : CurrencyId)
  | targetIsSender (target : Address)
  | targetTwice (target : Address)
  | receiverIsSender (receiver : Address)
  | receiverTwice (receiver : Address)
  | zeroTarget (target : Address)
  | mintTwice (receiver : Address) (currency : CurrencyId)
  | foreignGenesis (currency : CurrencyId) (account expected : Address)
  | currencyTwice (currency : CurrencyId)
deriving DecidableEq

inductive SignFault where
  | none
  | signerTwice (signer : PublicKey)
  | withoutNode (signer : PublicKey)
  | unverified (signer : PublicKey)
deriving DecidableEq

inductive ValidationError where
  | amount (fault : AmountFault)
  | currencyId (fault : CurrencyId.Fault)
  | address (fault : Address.Fault)
  | keys (fault : KeyFault)
  | fee (fault : FeeFault)
  | design (fault : DesignFault)
  | threshold (percent : Nat)
  | networkPolicy (fault : PolicyFault)
  | fact (fault : FactFault)
  | sign (fault : SignFault)
  | hashMismatch (expected actual : Digest)
deriving DecidableEq

def AmountFault.message : AmountFault → String
  | .numeral fault => fault.message
  | .notPositive amount => "amount must be over zero, got " ++ amount.text

def FeeFault.message : FeeFault → String
  | .ratioRange got => "ratio must be in [0, 1], got " ++ got
  | .ratioText s => "invalid ratio " ++ Text.quoted s
  | .negativeFixed amount => "fixed fee must not be negative, got " ++ Decimal.ofInt amount
  | .negativeMinimum minimum => "min fee must not be negative, got " ++ Decimal.ofInt minimum
  | .maximumUnderMinimum maximum minimum =>
    "max fee " ++ Decimal.ofInt maximum ++ " under min fee " ++ Decimal.ofInt minimum

def DesignFault.message : DesignFault → String
  | .negativeAccountMinimum minimum =>
    "new account min balance must not be negative, got " ++ Decimal.ofInt minimum
  | .negativeAggregate aggregate =>
    "aggregate must not be negative, got " ++ Decimal.ofInt aggregate
  | .zeroGenesisAccount => "genesis account must not be a zero account"

def PolicyFault.message : PolicyFault → String
  | .noMembers => "max suffrage size must be over zero"
  | .noLifespan => "candidate lifespan must be over zero"

def FactFault.message : FactFault → String
  | .tokenLength n => "token length must be 1..=100, got " ++ Decimal.ofNat n
  | .itemCount n => "items must be 1..=10, got " ++ Decimal.ofNat n
  | .amountCount n => "amounts in item must be 1..=10, got " ++ Decimal.ofNat n
  | .currencyTwiceInItem currency => "duplicated currency " ++ currency.text ++ " in item"
  | .targetIsSender target => "target address same as sender, " ++ target.text
  | .targetTwice target => "duplicated target " ++ target.text
  | .receiverIsSender receiver => "receiver same as sender, " ++ receiver.text
  | .receiverTwice receiver => "duplicated receiver " ++ receiver.text
  | .zeroTarget target => "zero account " ++ target.text ++ " cannot update keys"
  | .mintTwice receiver currency => "duplicated mint item " ++ receiver.text ++ " " ++ currency.text
  | .foreignGenesis currency account expected =>
    "design " ++ currency.text ++ " genesis account " ++ account.text ++ " is not " ++ expected.text
  | .currencyTwice currency => "duplicated currency " ++ currency.text

def SignFault.message : SignFault → String
  | .none => "empty signs"
  | .signerTwice signer => "duplicated signer " ++ signer.text
  | .withoutNode signer =>
    "node operation sign by " ++ signer.text ++ " without node address"
  | .unverified signer => "signature by " ++ signer.text ++ " does not verify"

def ValidationError.message : ValidationError → String
  | .amount fault => "Invalid amount: " ++ fault.message
  | .currencyId fault => "Invalid currency id: " ++ fault.message
  | .address fault => "Invalid address: " ++ fault.message
  | .keys fault => "Invalid keys: " ++ fault.message
  | .fee fault => "Invalid feeer: " ++ fault.message
  | .design fault => "Invalid currency design: " ++ fault.message
  | .threshold percent => "Invalid threshold: " ++ Decimal.ofNat percent
  | .networkPolicy fault => "Invalid network policy: " ++ fault.message
  | .fact fault => "Invalid fact: " ++ fault.message
  | .sign fault => "Invalid sign: " ++ fault.message
  | .hashMismatch expected actual =>
    "Hash mismatch: expected " ++ expected.text ++ ", got " ++ actual.text

/-- The name of an error in reports. -/
def ValidationError.name : ValidationError → String
  | .amount _ => "InvalidAmount"
  | .currencyId _ => "InvalidCurrencyId"
  | .address _ => "InvalidAddress"
  | .keys _ => "InvalidKeys"
  | .fee _ => "InvalidFeeer"
  | .design _ => "InvalidCurrencyDesign"
  | .threshold _ => "InvalidThreshold"
  | .networkPolicy _ => "InvalidNetworkPolicy"
  | .fact _ => "InvalidFact"
  | .sign _ => "InvalidSign"
  | .hashMismatch .. => "HashMismatch"

/-- Only positive amounts can be moved. -/
def Amount.checkPositive (a : Amount) : Except ValidationError Unit :=
  if 0 < a.magnitude then .ok () else .error (.amount (.notPositive a))

end CurrencyLedger
