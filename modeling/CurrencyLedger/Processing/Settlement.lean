import CurrencyLedger.Processing.Charge

/-!
Settlement of a paid operation: credits of the receivers, credits of the fee receivers, debits of
the sender, and the fees added to the totals of their currencies.

A balance is written once. A fee receiver that is the sender pays that much less; one that is
credited in the same currency anyway gets the fee with that credit.
-/

namespace CurrencyLedger.Settlement

structure Credit where
  receiver : Address
  amount : Amount
deriving DecidableEq

/-- The fee that a credited receiver collects in the credit's currency. -/
def folded (sender : Address) (charges : List Charge) (c : Credit) : Int :=
  match (charges.find? fun charge => charge.currency = c.amount.currency).bind Charge.due? with
  | some (receiver, fee) => if receiver = c.receiver ∧ receiver ≠ sender then fee else 0
  | none => 0

def creditChange (ctx : Context) (sender : Address) (charges : List Charge) (c : Credit) :
    Result Change := do
  let current ← ctx.balance c.receiver c.amount.currency
  return .balance c.receiver
    ⟨current + (c.amount.magnitude + folded sender charges c), c.amount.currency⟩

/-- The credit of a fee receiver that is neither the sender nor credited anyway. -/
def feeChange (ctx : Context) (sender : Address) (credits : List Credit) (charge : Charge) :
    Result (Option Change) := do
  match charge.due? with
  | none => return none
  | some (receiver, fee) =>
    if receiver = sender ∨
        credits.any fun c => c.receiver = receiver ∧ c.amount.currency = charge.currency then
      return none
    else
      let current ← ctx.balance receiver charge.currency
      return some (.balance receiver ⟨current + fee, charge.currency⟩)

/-- What the sender pays: the amount and the fee, or the amount alone if the fee comes back. -/
def debit (sender : Address) (charge : Charge) : Int :=
  match charge.due? with
  | some (receiver, _) => if receiver = sender then charge.amount else charge.required
  | none => charge.required

def debitChange (sender : Address) (balances : List (CurrencyId × Int)) (charge : Charge) :
    Result (Option Change) :=
  match balances.find? fun entry => entry.1 = charge.currency with
  | some (_, balance) =>
    .ok (some (.balance sender ⟨balance - debit sender charge, charge.currency⟩))
  | none =>
    if debit sender charge = 0 then .ok none
    else .error (.fatal (.uncheckedBalance sender charge.currency))

def designChange (ctx : Context) (charge : Charge) : Result (Option Change) := do
  match charge.due? with
  | none => return none
  | some (_, fee) => return some (.design ((← ctx.design charge.currency).issue fee))

def changes (ctx : Context) (sender : Address) (balances : List (CurrencyId × Int))
    (charges : List Charge) (credits : List Credit) : Result (List Change) := do
  let credited ← credits.mapM (creditChange ctx sender charges)
  let fees ← charges.mapM (feeChange ctx sender credits)
  let debits ← charges.mapM (debitChange sender balances)
  let designs ← charges.mapM (designChange ctx)
  return credited ++ fees.filterMap id ++ debits.filterMap id ++ designs.filterMap id

end CurrencyLedger.Settlement
