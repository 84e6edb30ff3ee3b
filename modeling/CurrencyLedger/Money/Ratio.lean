import CurrencyLedger.Validation

/-!
Fee ratios from zero to one, in billionths. Their texts are exact decimals with up to nine places.
-/

namespace CurrencyLedger

/-- The parts of one. -/
def Ratio.scale : Nat := 1000000000

structure Ratio where
  parts : Nat
  le_one : parts ≤ Ratio.scale
deriving DecidableEq

namespace Ratio

def ofParts (n : Nat) : Except ValidationError Ratio :=
  if h : n ≤ scale then .ok ⟨n, h⟩
  else .error (.fee (.ratioRange (Decimal.ofNat n ++ " parts")))

/-- The places of a fraction of billionths, without zeros at the end. -/
def places (n : Nat) : List Char :=
  let ds := Decimal.digits n
  ((List.replicate (9 - ds.length) '0' ++ ds).reverse.dropWhile (· == '0')).reverse

def chars (r : Ratio) : List Char :=
  let whole := Decimal.digits (r.parts / scale)
  if r.parts % scale = 0 then whole else whole ++ '.' :: places (r.parts % scale)

def text (r : Ratio) : String :=
  String.ofList r.chars

/-- Billionths that a decimal denotes: digits, and after a point one to nine more. Numbers of parts
beyond 64 bits are not taken. -/
def partsOf? (cs : List Char) : Option Nat :=
  let whole := cs.takeWhile (· != '.')
  let places := (cs.dropWhile (· != '.')).drop 1
  let pointed := cs.contains '.'
  if (pointed → places ≠ []) ∧ places.length ≤ 9 then do
    let w ← Decimal.value? whole
    let p ← Decimal.valueFrom? 0 (places ++ List.replicate (9 - places.length) '0')
    if w * scale + p < UInt64.size then some (w * scale + p) else none
  else none

def parse (s : String) : Except ValidationError Ratio :=
  match partsOf? s.toList with
  | some n => ofParts n
  | none => .error (.fee (.ratioText s))

/-- The nearest ratio to a floating-point number from zero to one. -/
def ofFloat (x : Float) : Except ValidationError Ratio :=
  if 0 ≤ x ∧ x ≤ 1 then ofParts (x * Float.ofNat scale).round.toUInt64.toNat
  else .error (.fee (.ratioRange (Shortest.text x)))

def toFloat (r : Ratio) : Float :=
  Float.ofNat r.parts / Float.ofNat scale

end Ratio

def Wire.ratio : Wire Ratio :=
  text Ratio.text Ratio.parse ValidationError.message

end CurrencyLedger
