import CurrencyLedger.Command.Run

/-!
The command line.
-/

open CurrencyLedger Command

/-- The content of a file, if it can be read. -/
def readFile? (path : String) : IO (Option String) := do
  try return some (← IO.FS.readFile path) catch _ => return none

def runRequest (request : Request) : IO UInt32 := do
  let contents ← request.files.mapM fun path => do return (path, ← readFile? path)
  let outcome := request.run fun path => (contents.lookup path).join
  IO.print outcome.output
  if let some failure := outcome.failure then
    IO.eprintln ("Error: " ++ failure.message)
  return outcome.code

def main (args : List String) : IO UInt32 :=
  match Request.ofArguments args with
  | .ok request => runRequest request
  | .error .usage => do
    IO.print Request.usage
    return 0
  | .error .version => do
    IO.print Request.version
    return 0
  | .error .wrong => do
    IO.eprint Request.usage
    return 2
