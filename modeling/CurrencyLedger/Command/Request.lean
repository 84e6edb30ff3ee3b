import CurrencyLedger.Command.Arguments

/-!
The commands with their arguments.
-/

namespace CurrencyLedger.Command

inductive Request where
  /-- The address of weighted keys. -/
  | address (keys : List String) (threshold : UInt32) (ethereum : Bool)
  /-- The fee that a fee policy takes on an amount. -/
  | fee (policy amount : String)
  /-- Runs a file of operations against a file of records. -/
  | process (records operations : String) (height : UInt64) (config : Option String)

namespace Request

def threshold : Parameter :=
  { name := "threshold", letter := some 't', form := .number (UInt32.size - 1) true }

def height : Parameter :=
  { name := "height", form := .number (UInt64.size - 1) false }

def addressParameters : List Parameter :=
  [{ name := "key", letter := some 'k', repeatable := true }, threshold,
   { name := "ethereum", form := .flag }]

def feeParameters : List Parameter :=
  [{ name := "feeer", letter := some 'f' }, { name := "amount", letter := some 'a' }]

def processParameters : List Parameter :=
  [{ name := "state", letter := some 's' }, { name := "operations", letter := some 'o' }, height,
   { name := "config", letter := some 'c' }]

def ofAddress (args : List String) : Except Refusal Request := do
  let given ← Arguments.parse addressParameters args
  let _ ← given.required "key"
  return .address (given.values "key")
    (UInt32.ofNat (given.number threshold 100)) (given.has "ethereum")

def ofFee (args : List String) : Except Refusal Request := do
  let given ← Arguments.parse feeParameters args
  return .fee (← given.required "feeer") (← given.required "amount")

def ofProcess (args : List String) : Except Refusal Request := do
  let given ← Arguments.parse processParameters args
  return .process (← given.required "state") (← given.required "operations")
    (UInt64.ofNat (given.number height 1)) (given.value? "config")

def ofArguments : List String → Except Refusal Request
  | "address" :: args => ofAddress args
  | "fee" :: args => ofFee args
  | "process" :: args => ofProcess args
  | "help" :: topics =>
    if topics.all (["address", "fee", "process", "help"].contains ·) && topics.length ≤ 1 then
      .error .usage
    else .error .wrong
  | arg :: _ =>
    match arg.toList with
    | '-' :: 'h' :: _ => .error .usage
    | '-' :: 'V' :: _ => .error .version
    | _ =>
      if arg = "--help" then .error .usage
      else if arg = "--version" then .error .version
      else .error .wrong
  | [] => .error .wrong

/-- The files that a command reads. -/
def files : Request → List String
  | .process records operations _ config => config.toList ++ [records, operations]
  | _ => []

def version : String := "currency-cli 1.0.0\n"

def usage : String :=
  String.intercalate "\n"
    ["Usage: currency-cli <COMMAND>",
     "",
     "Commands:",
     "  address  Derive the address of a set of account keys",
     "           -k, --key <PUBLIC_KEY=WEIGHT>, repeatable",
     "           -t, --threshold <N>, 100 if absent",
     "           --ethereum",
     "  fee      Evaluate a feeer on an amount",
     "           -f, --feeer <JSON>",
     "           -a, --amount <N>",
     "  process  Process a file of operations against a file of states",
     "           -s, --state <FILE>",
     "           -o, --operations <FILE>",
     "           --height <N>, 1 if absent",
     "           -c, --config <FILE>",
     ""]

end Request

end CurrencyLedger.Command
