import CurrencyLedger.Processing.Signatures

/-!
What an operation costs its sender: in each currency the amounts that it moves and the fee on their
sum.
-/

namespace CurrencyLedger

structure Charge where
  currency : CurrencyId
  amount : Int
  fee : Int
  receiver : Option Address
deriving DecidableEq

namespace Charge

def required (c : Charge) : Int :=
  c.amount + c.fee

/-- Who collects the fee, unless it is zero. -/
def due? (c : Charge) : Option (Address × Int) :=
  if 0 < c.fee then c.receiver.map fun receiver => (receiver, c.fee) else none

/-- Sums of amounts by currency. -/
abbrev Sums := KeyedList fun a : Amount => a.currency.text

def addTo (sums : Sums) (a : Amount) : Sums :=
  let sum := ((sums.get? a.currency.text).map Amount.magnitude).getD 0
  sums.insert ⟨sum + a.magnitude, a.currency⟩

def sums (amounts : List Amount) : Sums :=
  amounts.foldl addTo .empty

/-- The charge for the sum of the amounts in a currency. Its fee receiver must have an account. -/
def ofSum (ctx : Context) (sum : Amount) : Result Charge := do
  let design ← ctx.design sum.currency
  let fee ← (design.policy.fee.fee sum.magnitude).mapError fun e => .fatal (.fee e)
  let receiver := design.policy.fee.receiver?
  match receiver with
  | some address => ctx.requireAccount address .feeReceiverNotFound
  | none => pure ()
  return ⟨sum.currency, sum.magnitude, fee, receiver⟩

/-- The charges in the order of their currencies. -/
def ofAmounts (ctx : Context) (amounts : List Amount) : Result (List Charge) :=
  (sums amounts).toList.mapM (ofSum ctx)

/-- The balance that covers a charge. There is none if nothing is required and nothing recorded. -/
def cover (ctx : Context) (sender : Address) (c : Charge) :
    Result (Option (CurrencyId × Int)) := do
  let balance ← ctx.balance? sender c.currency
  if balance.isNone ∧ c.required = 0 then return none
  else
    let available := balance.getD 0
    if available < c.required then
      reject (.insufficientBalance sender c.currency c.required available (c.required - available))
    else return some (c.currency, available)

/-- The sender's balances in the currencies of the charges, each of which must be covered. -/
def coverAll (ctx : Context) (sender : Address) (charges : List Charge) :
    Result (List (CurrencyId × Int)) := do
  return (← charges.mapM (cover ctx sender)).filterMap id

end Charge

end CurrencyLedger
