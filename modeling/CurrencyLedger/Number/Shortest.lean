import CurrencyLedger.Number.Decimal

/-!
The shortest decimal text of a binary floating-point number: as few digits as read back to the same
number, and the nearest such digits. `text` is positional, whatever the size of the number;
`compactText` gives very large and very small numbers an exponent.
-/

namespace CurrencyLedger.Shortest

/-- A positive number `mantissa · 2 ^ exponent` with the parts of its gap to the next lower number.
-/
structure Binary where
  mantissa : Nat
  exponent : Int
  /-- The gap below is half the gap above. -/
  narrow : Bool

inductive Parts where
  | nan
  | infinite (negative : Bool)
  | zero (negative : Bool)
  | finite (negative : Bool) (magnitude : Binary)

/-- Takes the sign, exponent and fraction fields of a 64-bit pattern apart. -/
def parts (bits : UInt64) : Parts :=
  let n : Nat := bits.toNat
  let negative : Bool := n / Nat.pow 2 63 = 1
  let field : Nat := n / Nat.pow 2 52 % Nat.pow 2 11
  let fraction : Nat := n % Nat.pow 2 52
  if field = 2047 then
    if fraction = 0 then .infinite negative else .nan
  else if field = 0 then
    if fraction = 0 then .zero negative else .finite negative ⟨fraction, -1074, false⟩
  else .finite negative ⟨Nat.pow 2 52 + fraction, (field : Int) - 1075, fraction = 0 ∧ 1 < field⟩

/-- A number and the ends of the interval of reals that round to it, all over `denominator`. -/
structure Interval where
  value : Nat
  low : Nat
  high : Nat
  denominator : Nat
  inclusive : Bool

def Binary.interval (b : Binary) : Interval :=
  let up := Nat.pow 2 b.exponent.toNat
  let down := Nat.pow 2 (-b.exponent).toNat
  { value := 4 * b.mantissa * up
    low := (4 * b.mantissa - if b.narrow then 1 else 2) * up
    high := (4 * b.mantissa + 2) * up
    denominator := 4 * down
    inclusive := b.mantissa % 2 = 0 }

def Interval.contains (i : Interval) (numerator scale : Nat) : Bool :=
  if i.inclusive then
    i.low * scale ≤ numerator * i.denominator && numerator * i.denominator ≤ i.high * scale
  else
    i.low * scale < numerator * i.denominator && numerator * i.denominator < i.high * scale

/-- Which of two equally near decimals is taken. -/
inductive Tie where
  | greater
  /-- The one with an even last digit. -/
  | even

/-- Whether a tie between `below` and the next number goes to the next one. -/
def Tie.isAbove (tie : Tie) (below : Nat) : Bool :=
  match tie with
  | .greater => true
  | .even => below % 2 = 1

/-- `digits · 10 ^ exponent`. -/
structure Scaled where
  digits : Nat
  exponent : Int

/-- The nearest point of the grid of multiples of `10 ^ exponent` that lies in the interval. -/
def Interval.onGrid? (i : Interval) (tie : Tie) (exponent : Int) : Option Scaled :=
  let unit := Nat.pow 10 exponent.toNat
  let scale := Nat.pow 10 (-exponent).toNat
  let numerator := i.value * scale
  let step := i.denominator * unit
  let below := numerator / step
  let holds (k : Nat) : Bool := i.contains (k * unit) scale
  let twice := 2 * (numerator % step)
  let nearerAbove : Bool := step < twice || (step = twice && tie.isAbove below)
  if holds below && !(holds (below + 1) && nearerAbove) then some ⟨below, exponent⟩
  else if holds (below + 1) then some ⟨below + 1, exponent⟩
  else none

/-- The least `k` with `value < 10 ^ k` for the interval's value. -/
def Interval.magnitude (i : Interval) : Int :=
  if i.denominator ≤ i.value then (Decimal.digits (i.value / i.denominator)).length
  else 1 - ((Decimal.digits ((i.denominator - 1) / i.value)).length : Int)

/-- Drops a last zero, which is there when the nearest point is the power of ten above the number.
-/
def Scaled.trimmed (s : Scaled) : Scaled :=
  if s.digits % 10 = 0 then ⟨s.digits / 10, s.exponent + 1⟩ else s

/-- Seventeen digits always suffice. -/
def Binary.shortest (b : Binary) (tie : Tie) : Scaled :=
  let i := b.interval
  let grids := (List.range' 1 17).map fun count : Nat => i.magnitude - count
  ((grids.findSome? (i.onGrid? tie)).getD ⟨b.mantissa, b.exponent⟩).trimmed

/-- Writes out all zeros in front of or behind the digits. -/
def Scaled.positional (s : Scaled) : List Char :=
  if 0 ≤ s.exponent then Decimal.digits (s.digits * Nat.pow 10 s.exponent.toNat)
  else
    let places := (-s.exponent).toNat
    let whole := s.digits / Nat.pow 10 places
    let part := Decimal.digits (s.digits % Nat.pow 10 places)
    Decimal.digits whole ++ '.' :: List.replicate (places - part.length) '0' ++ part

/-- How many places stand in front of the point; negative if zeros follow it first. -/
def Scaled.magnitude (s : Scaled) : Int :=
  (Decimal.digits s.digits).length + s.exponent

/-- One digit in front of the point, and an exponent with its sign. -/
def Scaled.scientific (s : Scaled) : List Char :=
  let power := s.magnitude - 1
  let sign : Char := if power < 0 then '-' else '+'
  let tail := 'e' :: sign :: Decimal.digits power.natAbs
  match Decimal.digits s.digits with
  | [d] => d :: tail
  | d :: ds => d :: '.' :: ds ++ tail
  | [] => tail

/-- From a hundred-thousandth up to sixteen places a number is positional, with a point in any case.
-/
def Scaled.compact (s : Scaled) : List Char :=
  if -5 < s.magnitude ∧ s.magnitude ≤ 16 then
    if 0 ≤ s.exponent then s.positional ++ ['.', '0'] else s.positional
  else s.scientific

def signed (negative : Bool) (cs : List Char) : String :=
  String.ofList (if negative then '-' :: cs else cs)

def text (x : Float) : String :=
  match parts x.toBits with
  | .nan => "NaN"
  | .infinite negative => signed negative "inf".toList
  | .zero negative => signed negative ['0']
  | .finite negative magnitude => signed negative (magnitude.shortest .greater).positional

def compactText (x : Float) : String :=
  match parts x.toBits with
  | .nan => "NaN"
  | .infinite negative => signed negative "inf".toList
  | .zero negative => signed negative ['0', '.', '0']
  | .finite negative magnitude => signed negative (magnitude.shortest .even).compact

end CurrencyLedger.Shortest
