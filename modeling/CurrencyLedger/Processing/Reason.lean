import CurrencyLedger.Governance.Height
import CurrencyLedger.Money.Design
import CurrencyLedger.Operation.Operation

/-!
Why an operation is rejected. A rejection concerns the operation alone; the rest of a batch goes on.
-/

namespace CurrencyLedger

inductive Reason where
  | accountNotFound (address : Address)
  | receiverNotFound (address : Address)
  | accountAlreadyExists (address : Address)
  | currencyNotFound (currency : CurrencyId)
  | currencyAlreadyRegistered (currency : CurrencyId)
  | feeReceiverNotFound (address : Address)
  | insufficientBalance (address : Address) (currency : CurrencyId)
      (required available shortfall : Int)
  | belowMinimumBalance (currency : CurrencyId) (amount minimum : Int)
  | insufficientSignature (required got : Nat)
  /-- A signer, by its key or by the member that it speaks for. -/
  | duplicatedSigner (signer : String)
  | sameKeys (address : Address)
  | zeroAccount (address : Address)
  | duplicatedAddress (address : Address)
  | duplicatedSender (sender : Address)
  | duplicatedCurrency (currency : CurrencyId)
  | notSuffrageNode (node : Address)
  | alreadySuffrageNode (node : Address)
  | candidateNotFound (candidate : Address)
  | candidateExists (candidate : Address)
  | candidateExpired (candidate : Address) (deadline : Height)
  | startMismatch (node : Address) (expected got : Height)
  | suffrageFull (maximum : Nat)
  | suffrageEmpty
  | missingCandidateSign (candidate : Address)
  | notGenesisHeight (height : Height)
  | unknownOperation (kind : OperationKind)
  | invalidOperation (why : String)
deriving DecidableEq

/-- The name of a reason in reports. -/
def Reason.name : Reason → String
  | accountNotFound _ => "AccountNotFound"
  | receiverNotFound _ => "ReceiverNotFound"
  | accountAlreadyExists _ => "AccountAlreadyExists"
  | currencyNotFound _ => "CurrencyNotFound"
  | currencyAlreadyRegistered _ => "CurrencyAlreadyRegistered"
  | feeReceiverNotFound _ => "FeeReceiverNotFound"
  | insufficientBalance .. => "InsufficientBalance"
  | belowMinimumBalance .. => "BelowMinimumBalance"
  | insufficientSignature .. => "InsufficientSignature"
  | duplicatedSigner _ => "DuplicatedSigner"
  | sameKeys _ => "SameKeys"
  | zeroAccount _ => "ZeroAccount"
  | duplicatedAddress _ => "DuplicatedAddress"
  | duplicatedSender _ => "DuplicatedSender"
  | duplicatedCurrency _ => "DuplicatedCurrency"
  | notSuffrageNode _ => "NotSuffrageNode"
  | alreadySuffrageNode _ => "AlreadySuffrageNode"
  | candidateNotFound _ => "CandidateNotFound"
  | candidateExists _ => "CandidateExists"
  | candidateExpired .. => "CandidateExpired"
  | startMismatch .. => "StartMismatch"
  | suffrageFull _ => "SuffrageFull"
  | suffrageEmpty => "SuffrageEmpty"
  | missingCandidateSign _ => "MissingCandidateSign"
  | notGenesisHeight _ => "NotGenesisHeight"
  | unknownOperation _ => "UnknownOperation"
  | invalidOperation _ => "InvalidOperation"

def Reason.message : Reason → String
  | accountNotFound address => "Account " ++ address.text ++ " does not exist"
  | receiverNotFound address => "Receiver " ++ address.text ++ " does not exist"
  | accountAlreadyExists address => "Account " ++ address.text ++ " already exists"
  | currencyNotFound currency => "Currency " ++ currency.text ++ " does not exist"
  | currencyAlreadyRegistered currency => "Currency " ++ currency.text ++ " already registered"
  | feeReceiverNotFound address => "Fee receiver " ++ address.text ++ " does not exist"
  | insufficientBalance address currency required available shortfall =>
    "Insufficient balance of " ++ address.text ++ " in " ++ currency.text ++ ": required " ++
      Decimal.ofInt required ++ ", available " ++ Decimal.ofInt available ++ ", short " ++
      Decimal.ofInt shortfall
  | belowMinimumBalance currency amount minimum =>
    "Amount " ++ Decimal.ofInt amount ++ " of " ++ currency.text ++ " under new account minimum " ++
      Decimal.ofInt minimum
  | insufficientSignature required got =>
    "Insufficient signature: required " ++ Decimal.ofNat required ++ ", got " ++ Decimal.ofNat got
  | duplicatedSigner signer => "Duplicated signer " ++ signer
  | sameKeys address => "Account " ++ address.text ++ " already has the same keys"
  | zeroAccount address => "Zero account " ++ address.text ++ " cannot sign"
  | duplicatedAddress address => "Address " ++ address.text ++ " already created in this block"
  | duplicatedSender sender => "Sender " ++ sender.text ++ " already has an operation in this block"
  | duplicatedCurrency currency => "Currency " ++ currency.text ++ " already handled in this block"
  | notSuffrageNode node => "Node " ++ node.text ++ " is not in the suffrage"
  | alreadySuffrageNode node => "Node " ++ node.text ++ " is already in the suffrage"
  | candidateNotFound candidate => "Candidate " ++ candidate.text ++ " does not exist"
  | candidateExists candidate => "Candidate " ++ candidate.text ++ " already exists"
  | candidateExpired candidate deadline =>
    "Candidate " ++ candidate.text ++ " expired at " ++ deadline.text
  | startMismatch node expected got =>
    "Start height of " ++ node.text ++ " mismatch: expected " ++ expected.text ++
      ", got " ++ got.text
  | suffrageFull maximum => "Suffrage is full (" ++ Decimal.ofNat maximum ++ " nodes)"
  | suffrageEmpty => "Suffrage cannot become empty"
  | missingCandidateSign candidate => "Not signed by candidate " ++ candidate.text
  | notGenesisHeight height => "Genesis operation at height " ++ height.text
  | unknownOperation kind => "Unknown operation " ++ kind.name
  | invalidOperation why => "Invalid operation: " ++ why

end CurrencyLedger
