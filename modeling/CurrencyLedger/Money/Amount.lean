import CurrencyLedger.Money.Currency
import CurrencyLedger.Wire.Record

/-!
Amounts of money. Magnitudes are integers without bounds.
-/

namespace CurrencyLedger

structure Amount where
  magnitude : Int
  currency : CurrencyId
deriving DecidableEq

namespace Amount

/-- A text that is no magnitude. -/
structure NumeralFault where
  text : String
  fault : Decimal.Fault
deriving DecidableEq

def NumeralFault.message (f : NumeralFault) : String :=
  Text.quoted f.text ++ ": " ++ f.fault.message

def parseMagnitude (s : String) : Except NumeralFault Int :=
  match Decimal.signed s.toList with
  | .ok n => .ok n
  | .error fault => .error ⟨s, fault⟩

def text (a : Amount) : String :=
  Decimal.ofInt a.magnitude ++ " " ++ a.currency.text

/-- A fraction of a magnitude, rounded down. -/
def fraction (magnitude : Int) (numerator denominator : Nat) : Int :=
  (magnitude * numerator).fdiv denominator

/-- Only amounts of one currency compare. -/
def compare? (a b : Amount) : Option Ordering :=
  if a.currency = b.currency then some (compare a.magnitude b.magnitude) else none

end Amount

namespace Wire

def magnitude : Wire Int :=
  text Decimal.ofInt Amount.parseMagnitude fun fault => "Invalid amount: " ++ fault.message

def amount : Wire Amount :=
  record "struct Amount"
    (.cons (.of "amount" magnitude) <| .cons (.of "currency" currencyId) .nil)
    (fun a => (a.magnitude, a.currency, ()))
    (fun (magnitude, currency, ()) => ⟨magnitude, currency⟩)

end Wire

end CurrencyLedger
