import CurrencyLedger.Document.Node
import CurrencyLedger.Number.Numeral

/-!
Numbers of JSON. An integer that fits into 64 bits is kept as it is. Any other number becomes a
floating-point number in few steps: the leading digits that fit into 64 bits are rounded, and one
multiplication or division by a power of ten follows. The result may differ in its last bit from the
nearest floating-point number.
-/

namespace CurrencyLedger.Json

/-- `digits · 10 ^ exponent`, with digits that fit into 64 bits. -/
structure Significand where
  digits : Nat
  exponent : Int

namespace Significand

/-- Appends digits as long as the number fits into 64 bits, and returns it with the digits that are
left over. -/
def append (n : Nat) : List Char → Nat × List Char
  | [] => (n, [])
  | c :: rest =>
    let next := 10 * n + (Decimal.digitValue? c).getD 0
    if next < UInt64.size then append next rest else (n, c :: rest)

/-- Digits left over in front of the point count as zeros, those behind it are dropped. -/
def ofNumeral (n : Numeral) : Significand :=
  let part := n.part.getD []
  let (whole, dropped) := append 0 n.whole
  let (digits, unread) := append whole part
  ⟨digits, dropped.length - (part.length - unread.length : Nat) + n.exponent.getD 0⟩

/-- The greatest power of ten that there is. -/
def maxPower : Nat := 308

def power (n : Nat) : Float :=
  Float.ofScientific 1 false n

/-- The value, unless it is too large. Below the range of powers of ten the division is made in two
steps, and further below nothing is left. -/
def float? (s : Significand) : Option Float :=
  let x := Float.ofNat s.digits
  if s.digits = 0 then some x
  else if 0 ≤ s.exponent then
    if s.exponent ≤ maxPower then
      let y := x * power s.exponent.natAbs
      if y.isInf then none else some y
    else none
  else if s.exponent.natAbs ≤ maxPower then some (x / power s.exponent.natAbs)
  else if s.exponent.natAbs ≤ 2 * maxPower then
    some (x / power maxPower / power (s.exponent.natAbs - maxPower))
  else some 0

end Significand

/-- An integer, if the numeral is written as one, is not a negative zero and fits into 64 bits. -/
def numberNode (n : Numeral) : Node :=
  let i := n.integer
  if n.part.isNone ∧ n.exponent.isNone ∧ (n.negative → i ≠ 0) ∧
      -9223372036854775808 ≤ i ∧ i < 18446744073709551616 then .int i
  else
    match (Significand.ofNumeral n).float? with
    | some x => .number (if n.negative then -x else x)
    | none => .unreadable

end CurrencyLedger.Json
