import CurrencyLedger.Text.Quoted
import CurrencyLedger.Wire.Basic

/-!
Identifiers of currencies: three to ten characters, capital letters and digits at both ends, and
between them a few signs too.
-/

namespace CurrencyLedger

namespace CurrencyId

def isEdge (c : Char) : Bool :=
  c.isUpper || c.isDigit

def isInner (c : Char) : Bool :=
  isEdge c || ['_', '.', '!', '$', '*', '@'].contains c

def hasShape (cs : List Char) : Bool :=
  cs.head?.all isEdge && cs.getLast?.all isEdge && cs.all isInner

end CurrencyId

structure CurrencyId where
  text : String
  length : 3 ≤ text.length ∧ text.length ≤ 10
  shape : CurrencyId.hasShape text.toList = true
deriving DecidableEq

namespace CurrencyId

inductive Fault where
  | length (id : String)
  | characters (id : String)
deriving DecidableEq

def Fault.message : Fault → String
  | .length id => Text.quoted id ++ ": length must be 3..=10"
  | .characters id => Text.quoted id ++ ": invalid characters"

def parse (s : String) : Except Fault CurrencyId :=
  if length : 3 ≤ s.length ∧ s.length ≤ 10 then
    if shape : hasShape s.toList then .ok ⟨s, length, shape⟩ else .error (.characters s)
  else .error (.length s)

theorem parse_text (id : CurrencyId) : parse id.text = .ok id := by
  simp [parse, id.length, id.shape]

end CurrencyId

def Wire.currencyId : Wire CurrencyId :=
  text CurrencyId.text CurrencyId.parse fun fault => "Invalid currency id: " ++ fault.message

end CurrencyLedger
