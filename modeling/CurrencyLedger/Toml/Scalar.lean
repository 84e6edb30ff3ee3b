import CurrencyLedger.Document.Node
import CurrencyLedger.Number.Numeral
import CurrencyLedger.Text.Hex

/-!
Scalars of TOML that stand without quotes: booleans, integers of 64 bits, numbers, and dates with
times. Nothing here has a use for dates, so a date is a node that can only be passed over.
-/

namespace CurrencyLedger.Toml

/-- Characters of which scalars and their near misses are made. -/
def isScalarChar (c : Char) : Bool :=
  c.isAlphanum || ['_', '+', '-', '.', ':'].contains c

/-- Takes out the underscores, each of which must stand between two digits. -/
def ungroup? (isDigit : Char → Bool) : (afterDigit : Bool) → List Char → Option (List Char)
  | _, [] => some []
  | afterDigit, '_' :: c :: rest =>
    if afterDigit && isDigit c then (ungroup? isDigit true rest).map (c :: ·) else none
  | _, c :: rest => if c = '_' then none else (ungroup? isDigit (isDigit c) rest).map (c :: ·)

def digit? (base : Nat) (c : Char) : Option Nat :=
  if c.toNat < 128 then (Hex.nibble? (UInt8.ofNat c.toNat)).filter (· < base) else none

/-- The number that a grouped run of digits denotes. -/
def digitsValue? (base : Nat) (cs : List Char) : Option Nat := do
  match ← (← ungroup? (fun c => (digit? base c).isSome) false cs).mapM (digit? base) with
  | [] => none
  | ds => return ds.foldl (fun n d => base * n + d) 0

/-- A number without a needless zero in front. -/
def decimal? : List Char → Option Nat
  | '0' :: _ :: _ => none
  | cs => digitsValue? 10 cs

/-- Signs are for decimal integers only. -/
def unboundedInteger? : List Char → Option Int
  | '0' :: 'x' :: rest => (digitsValue? 16 rest).map Int.ofNat
  | '0' :: 'o' :: rest => (digitsValue? 8 rest).map Int.ofNat
  | '0' :: 'b' :: rest => (digitsValue? 2 rest).map Int.ofNat
  | '-' :: rest => (decimal? rest).map fun n => -(n : Int)
  | '+' :: rest => (decimal? rest).map Int.ofNat
  | cs => (decimal? cs).map Int.ofNat

def integer? (cs : List Char) : Option Int :=
  (unboundedInteger? cs).filter fun n => (Int64.ofInt n).toInt = n

/-- A number with a part or an exponent. Above zero it must not be too large. -/
def number? (cs : List Char) : Option Float := do
  match Numeral.read? (← ungroup? Numeral.isDigit false cs) with
  | some (n, []) =>
    if n.part.isNone ∧ n.exponent.isNone then none
    else if n.negative then some (n.float?.getD (-1 / 0))
    else n.float?
  | _ => none

def dropPlus : List Char → List Char
  | '+' :: '-' :: rest => '+' :: '-' :: rest
  | '+' :: rest => rest
  | cs => cs

def special? : List Char → Option Float
  | ['i', 'n', 'f'] => some (1 / 0)
  | ['-', 'i', 'n', 'f'] => some (-1 / 0)
  | ['n', 'a', 'n'] => some (0 / 0)
  | ['-', 'n', 'a', 'n'] => some (0 / 0)
  | _ => none

/-- A number from two digits. -/
def twoDigits? (a b : Char) : Option Nat :=
  Decimal.value? [a, b]

def daysIn (year month : Nat) : Nat :=
  if month = 2 then
    if year % 4 = 0 ∧ (year % 100 ≠ 0 ∨ year % 400 = 0) then 29 else 28
  else if month = 4 ∨ month = 6 ∨ month = 9 ∨ month = 11 then 30
  else 31

def isDate (year month day : Option Nat) : Bool :=
  match year, month, day with
  | some y, some m, some d => 1 ≤ m && m ≤ 12 && 1 ≤ d && d ≤ daysIn y m
  | _, _, _ => false

def isClock (hour minute second : Option Nat) : Bool :=
  hour.any (· ≤ 23) && minute.any (· ≤ 59) && second.any (· ≤ 60)

/-- What may stand behind the seconds of a time: places, then a zone if there is a date. -/
def isZone : List Char → Bool
  | [] => true
  | ['Z'] => true
  | ['z'] => true
  | [sign, a, b, ':', c, d] =>
    (sign == '+' || sign == '-') && (twoDigits? a b).any (· ≤ 23) &&
      (twoDigits? c d).any (· ≤ 59)
  | _ => false

def dropPlaces? : List Char → Option (List Char)
  | '.' :: rest => (Numeral.digits? rest).map (·.2)
  | cs => some cs

def isTime (zoned : Bool) : List Char → Bool
  | a :: b :: ':' :: c :: d :: ':' :: e :: f :: rest =>
    isClock (twoDigits? a b) (twoDigits? c d) (twoDigits? e f) &&
      (dropPlaces? rest).any fun rest => if zoned then isZone rest else rest.isEmpty
  | _ => false

/-- A date, a time, or a date with a time behind one character. -/
def isMoment : List Char → Bool
  | a :: b :: c :: d :: '-' :: e :: f :: '-' :: g :: h :: rest =>
    isDate (Decimal.value? [a, b, c, d]) (twoDigits? e f) (twoDigits? g h) &&
      match rest with
      | [] => true
      | mark :: time => ['T', 't', ' '].contains mark && isTime true time
  | cs => isTime false cs

def scalar? (cs : List Char) : Option Node :=
  if cs = "true".toList then some (.bool true)
  else if cs = "false".toList then some (.bool false)
  else
    match integer? cs with
    | some n => some (.int n)
    | none =>
      match (special? (dropPlus cs)).or (number? (dropPlus cs)) with
      | some x => some (.number x)
      | none => if isMoment cs then some .unreadable else none

/-- Splits off a scalar. A date and its time may stand apart by one blank. -/
def splitScalar (cs : List Char) : List Char × List Char :=
  let first := cs.takeWhile isScalarChar
  match cs.dropWhile isScalarChar with
  | ' ' :: rest =>
    let both := first ++ ' ' :: rest.takeWhile isScalarChar
    if isMoment both then (both, rest.dropWhile isScalarChar) else (first, ' ' :: rest)
  | rest => (first, rest)

end CurrencyLedger.Toml
