import CurrencyLedger.Processing.Error

/-!
What a processor reads: a height, the committed records and the share of members that has to sign.
-/

namespace CurrencyLedger

/-- Answers reads of records. -/
abbrev Reader := String → Except LedgerError (Option Record)

/-- Reads the records of a store. -/
def Store.reader (store : Store) : Reader :=
  fun key => .ok (store.get? key)

structure Context where
  height : Height
  read : Reader
  threshold : Threshold

namespace Context

/-- The record under a key, if there is one, opened as what it must hold. -/
def find {α : Type} (ctx : Context) (key : String) (content : Record → Except StateError α) :
    Result (Option α) := do
  match ← (ctx.read key).mapError .fatal with
  | none => return none
  | some r => return some (← Result.ofState (content r))

def account? (ctx : Context) (address : Address) : Result (Option Account) :=
  ctx.find (RecordKey.account address) Record.account

def accountExists (ctx : Context) (address : Address) : Result Bool := do
  return (← ctx.account? address).isSome

/-- Passes if there is an account, or rejects the operation. -/
def requireAccount (ctx : Context) (address : Address) (reason : Address → Reason) :
    Result Unit := do
  if ← ctx.accountExists address then return () else reject (reason address)

def requireNoAccount (ctx : Context) (address : Address) : Result Unit := do
  if ← ctx.accountExists address then reject (.accountAlreadyExists address) else return ()

def design (ctx : Context) (currency : CurrencyId) : Result CurrencyDesign := do
  match ← ctx.find (RecordKey.design currency) Record.design with
  | some d => return d
  | none => reject (.currencyNotFound currency)

def balance? (ctx : Context) (address : Address) (currency : CurrencyId) :
    Result (Option Int) := do
  return (← ctx.find (RecordKey.balance address currency) Record.balance).map Amount.magnitude

/-- The balance of an account, which is zero where nothing is recorded. -/
def balance (ctx : Context) (address : Address) (currency : CurrencyId) : Result Int := do
  return (← ctx.balance? address currency).getD 0

/-- A record that every ledger must have. -/
def require {α : Type} (ctx : Context) (key : String) (content : Record → Except StateError α) :
    Result α := do
  match ← ctx.find key content with
  | some a => return a
  | none => .error (.fatal (.state (.missing key)))

def members (ctx : Context) : Result Members :=
  ctx.require RecordKey.suffrage Record.members

def candidates (ctx : Context) : Result Candidates := do
  return (← ctx.find RecordKey.candidates Record.candidates).getD .empty

def networkPolicy (ctx : Context) : Result NetworkPolicy :=
  ctx.require RecordKey.networkPolicy Record.networkPolicy

end Context

end CurrencyLedger
