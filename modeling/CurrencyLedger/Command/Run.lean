import CurrencyLedger.Command.Request
import CurrencyLedger.Config.File
import CurrencyLedger.Processing.Dispatcher

/-!
What the commands print, given the contents of the files that they read.
-/

namespace CurrencyLedger.Command

inductive Failure where
  | keyForm (text : String)
  | weight (text : String) (fault : Decimal.Fault)
  | ledger (error : LedgerError)
  | validation (error : ValidationError)
  | fee (error : FeeError)
  | feePolicy (error : ReadError)
  | amount (text : String)
  | unreadable (path : String)
  | document (path : String) (error : ReadError)
  | noOperations (path : String)

def Failure.message : Failure → String
  | .keyForm s => "account key " ++ Text.quoted s ++ " is not PUBLIC_KEY=WEIGHT"
  | .weight s fault => "invalid weight in " ++ Text.quoted s ++ ": " ++ fault.message
  | .ledger error => error.message
  | .validation error => error.message
  | .fee error => error.message
  | .feePolicy error => "invalid feeer JSON: " ++ error.message
  | .amount s => "invalid amount " ++ Text.quoted s
  | .unreadable path => "reading " ++ path
  | .document path error => "parsing " ++ path ++ ": " ++ error.message
  | .noOperations path => "no operations in " ++ path

/-- What is printed before a command ends, and why it failed if it did. -/
structure Outcome where
  output : String
  failure : Option Failure

namespace Outcome

def ofResult : Except Failure String → Outcome
  | .ok output => ⟨output, none⟩
  | .error failure => ⟨"", some failure⟩

def code (o : Outcome) : UInt32 :=
  if o.failure.isSome then 1 else 0

end Outcome

/-- The contents of the files that can be read. -/
abbrev Files := String → Option String

/-- The files below the working directory, by name, where there are no others. A path may have steps
that stay where they are, but one that ends in such a step leads to no file. -/
def Files.ofDirectory (contents : List (String × String)) : Files := fun path =>
  let steps := path.splitOn "/"
  let stays (step : String) : Bool := step == "." || step == ""
  if steps.head? = some "" ∨ steps.getLast?.any stays then none
  else contents.lookup (String.intercalate "/" (steps.filter fun step => !stays step))

/-- Reads a weighted key: the text of the key, an equals sign and the weight. -/
def weightedKey (s : String) : Except Failure WeightedKey :=
  let cs := s.toList
  match cs.dropWhile (· != '=') with
  | '=' :: weight => do
    let key ← (PublicKey.parse (String.ofList (cs.takeWhile (· != '=')))).mapError fun fault =>
      .ledger (.publicKey fault)
    let weight ← (Decimal.unsigned (UInt32.size - 1) weight).mapError (.weight s)
    (WeightedKey.make key (UInt32.ofNat weight)).mapError fun fault => .validation (.keys fault)
  | _ => .error (.keyForm s)

def address (keys : List String) (threshold : UInt32) (ethereum : Bool) :
    Except Failure String := do
  let keys ← keys.mapM weightedKey
  let derived := do
    Address.derive (← KeySet.make keys threshold) (if ethereum then .ethereum else .native)
  let address ← derived.mapError fun fault => .validation (.keys fault)
  return "Address: " ++ address.text ++ "\n"

/-- The policy and the amount are read before anything is printed. -/
def feeInput (policy amount : String) : Except Failure (FeePolicy × Int) := do
  let policy ← (Wire.feePolicy.ofJson policy).mapError .feePolicy
  policy.check.mapError .validation
  let amount ← (Amount.parseMagnitude amount).mapError fun _ => .amount amount
  return (policy, amount)

def fee (policy amount : String) : Outcome :=
  match feeInput policy amount with
  | .error failure => ⟨"", some failure⟩
  | .ok (policy, amount) =>
    let first := "Feeer: " ++ policy.name ++ "\n"
    match policy.fee amount with
    | .error error => ⟨first, some (.fee error)⟩
    | .ok fee =>
      let receiver := policy.receiver?.map fun receiver => "Receiver: " ++ receiver.text ++ "\n"
      ⟨first ++ "Fee: " ++ Decimal.ofInt fee ++ "\n" ++ receiver.getD "", none⟩

def file (files : Files) (path : String) : Except Failure String :=
  match files path with
  | some content => .ok content
  | none => .error (.unreadable path)

def document {α : Type} (files : Files) (w : Wire α) (path : String) : Except Failure α := do
  (w.ofJson (← file files path)).mapError (.document path)

def config (files : Files) : Option String → Except Failure EngineConfig
  | none => .ok .standard
  | some path => do
    (EngineConfig.ofToml (← file files path)).mapError fun fault => .ledger (.config fault)

/-- The document that tells what became of the operations. -/
def report (height : Height) (result : BatchResult) (records : List Record) : Doc :=
  .record
    [("height", Wire.height.write height),
     ("accepted", .list (result.accepted.map fun (hash, _) => Wire.digest.write hash)),
     ("rejected", .list (result.rejected.map fun (hash, reason) => .record
      [("operation", Wire.digest.write hash), ("reason", .text reason.message)])),
     ("states", Wire.ledgerRecord.list.write records)]

def process (files : Files) (records operations : String) (height : Height)
    (configPath : Option String) : Except Failure String := do
  let config ← config files configPath
  let records ← document files Wire.ledgerRecord.list records
  let ops ← document files Wire.operation.list operations
  if ops.isEmpty then .error (.noOperations operations)
  else
    let store ← (Store.ofRecords records).mapError fun r => .ledger (.notIntact r.key)
    let dispatcher ← (Dispatcher.ofConfig config height store.reader).mapError .ledger
    let result ← (dispatcher.batch ops).1.mapError .ledger
    let (written, _) ← (store.commit height result.accepted).mapError fun e => .ledger (.state e)
    return Json.prettyText (report height result written) ++ "\n"

def Request.run (files : Files) : Request → Outcome
  | .address keys threshold ethereum => .ofResult (Command.address keys threshold ethereum)
  | .fee policy amount => Command.fee policy amount
  | .process records operations height config =>
    .ofResult (Command.process files records operations ⟨height⟩ config)

end CurrencyLedger.Command
