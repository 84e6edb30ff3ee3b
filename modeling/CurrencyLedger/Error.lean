import CurrencyLedger.Config.Engine
import CurrencyLedger.Hint
import CurrencyLedger.Identity.PrivateKey
import CurrencyLedger.Ledger.Record
import CurrencyLedger.Operation.Validity

/-!
The errors of the ledger in their classes.
-/

namespace CurrencyLedger

inductive Stage where
  | created
  | preProcessed
  | processed
  | closed
deriving DecidableEq

def Stage.name : Stage → String
  | created => "Created"
  | preProcessed => "PreProcessed"
  | processed => "Processed"
  | closed => "Closed"

inductive Phase where
  | preProcess
  | process
deriving DecidableEq

def Phase.past : Phase → String
  | preProcess => "pre-processed"
  | process => "processed"

inductive LedgerError where
  | validation (error : ValidationError)
  | fee (error : FeeError)
  | wrongKind (processor operation : OperationKind)
  | wrongFact (expected found : OperationKind)
  | publicKey (fault : PublicKey.Fault)
  | privateKey (fault : PrivateKey.Fault)
  | signature (fault : PublicKey.SignatureFault)
  | digest (fault : Digest.Fault)
  | hint (fault : Hint.Fault)
  | state (error : StateError)
  | notIntact (key : String)
  | unreadable (key : String)
  | wrongStage (kind : OperationKind) (phase : Phase) (stage : Stage)
  | uncheckedBalance (sender : Address) (currency : CurrencyId)
  | config (fault : ConfigFault)
deriving DecidableEq

namespace LedgerError

inductive Category where
  | validation
  | crypto
  | signature
  | codec
  | state
  | config
deriving DecidableEq

def Category.name : Category → String
  | .validation => "Validation"
  | .crypto => "Crypto"
  | .signature => "Signature"
  | .codec => "Codec"
  | .state => "State"
  | .config => "Config"

def Category.start : Category → String
  | .validation => "Validation error: "
  | .crypto => "Cryptographic error: "
  | .signature => "Signature error: "
  | .codec => "Codec error: "
  | .state => "State error: "
  | .config => "Config error: "

def category : LedgerError → Category
  | validation _ | fee _ | wrongKind .. | wrongFact .. => .validation
  | publicKey _ | privateKey _ => .crypto
  | signature _ => .signature
  | digest _ | hint _ => .codec
  | state _ | notIntact _ | unreadable _ | wrongStage .. | uncheckedBalance .. => .state
  | config _ => .config

def detail : LedgerError → String
  | validation error => error.message
  | fee error => error.message
  | wrongKind processor operation =>
    processor.name ++ " processor given " ++ operation.name ++ " operation"
  | wrongFact expected found => "expected " ++ expected.name ++ " fact, got " ++ found.name
  | publicKey fault => fault.message
  | privateKey fault => fault.message
  | signature fault => fault.message
  | digest fault => fault.message
  | hint fault => fault.message
  | state error => error.message
  | notIntact key => "state " ++ key ++ " hash mismatch"
  | unreadable key => "cannot read " ++ key
  | wrongStage kind phase stage =>
    kind.name ++ " processor " ++ phase.past ++ " in stage " ++ stage.name
  | uncheckedBalance sender currency =>
    "no checked balance of " ++ sender.text ++ " in " ++ currency.text
  | config fault => fault.message

def message (e : LedgerError) : String :=
  e.category.start ++ e.detail

end LedgerError

end CurrencyLedger
