import CurrencyLedger.Error
import CurrencyLedger.Ledger.Store
import CurrencyLedger.Processing.Reason

/-!
The ways in which the processing of an operation ends without effects.
-/

namespace CurrencyLedger

/-- The processing of an operation ends without effects: the operation is rejected, or the whole
height has to stop. -/
inductive Halt where
  | rejected (reason : Reason)
  | fatal (error : LedgerError)
deriving DecidableEq

abbrev Result := Except Halt

def reject {α : Type} (reason : Reason) : Result α :=
  .error (.rejected reason)

/-- What an error of an operation that is checked comes to: malformed content and bad signatures
reject the operation, anything else stops the height. -/
def LedgerError.verdict (e : LedgerError) : Except LedgerError Reason :=
  match e.category with
  | .validation | .signature | .crypto => .ok (.invalidOperation e.message)
  | .codec | .state | .config => .error e

def Result.ofState {α : Type} (r : Except StateError α) : Result α :=
  r.mapError fun e => .fatal (.state e)

end CurrencyLedger
