import CurrencyLedger.Number.BigEndian

/-!
Pairs of integers in the distinguished encoding: a tagged sequence that holds two tagged integers
and nothing else, every length in its shortest form.
-/

namespace CurrencyLedger.Der

/-- Reads a length and returns it with the bytes that follow it. -/
def length? : List UInt8 → Option (Nat × List UInt8)
  | [] => none
  | first :: rest =>
    let count := first.toNat - 128
    if first < 128 then some (first.toNat, rest)
    else if count = 0 ∨ count = 127 ∨ rest.length < count then none
    else if rest.head? = some 0 ∨ 8 < count then none
    else
      let n := BigEndian.number (rest.take count)
      let rest := rest.drop count
      if n < 128 ∨ rest.length < n then none else some (n, rest)

/-- The number that the content of an integer denotes. A negative number and one of more than 32
bytes count as zero. -/
def magnitude (content : List UInt8) : Nat :=
  let digits := if content.head? = some 0 then content.drop 1 else content
  if 128 ≤ content.headD 0 ∨ 32 < digits.length then 0 else BigEndian.number digits

/-- A first byte that only repeats the sign of the second is one too many. -/
def padded : List UInt8 → Bool
  | a :: b :: _ => (a == 0 && b < 128) || (a == 255 && 128 ≤ b)
  | _ => false

def integer? : List UInt8 → Option (Nat × List UInt8)
  | 0x02 :: rest => do
    let (n, rest) ← length? rest
    let content := rest.take n
    if n = 0 ∨ rest.length < n ∨ padded content then none
    else some (magnitude content, rest.drop n)
  | _ => none

def pair? : List UInt8 → Option (Nat × Nat)
  | 0x30 :: rest => do
    let (n, rest) ← length? rest
    if n ≠ rest.length then none
    else
      let (r, rest) ← integer? rest
      let (s, rest) ← integer? rest
      if rest.isEmpty then some (r, s) else none
  | _ => none

end CurrencyLedger.Der
