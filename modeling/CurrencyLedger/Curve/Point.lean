/-!
The elliptic curve `y² = x³ + 7` over a prime field, with a generator of prime order.

A point is held by its abscissa and the parity of its ordinate. Sums of multiples are computed in
projective coordinates, so that one inversion at the end is enough.
-/

namespace CurrencyLedger.Curve

def fieldSize : Nat := 0xfffffffffffffffffffffffffffffffffffffffffffffffffffffffefffffc2f

def order : Nat := 0xfffffffffffffffffffffffffffffffebaaedce6af48a03bbfd25e8cd0364141

/-- The low `width` bits of a number, the most significant first. -/
def bits : Nat → Nat → List Bool
  | 0, _ => []
  | width + 1, n => n.testBit width :: bits width n

/-- `base ^ exponent` modulo `modulus`, for exponents of up to 256 bits. -/
def powMod (modulus base exponent : Nat) : Nat :=
  (bits 256 exponent).foldl
    (fun acc bit => if bit then acc * acc % modulus * base % modulus else acc * acc % modulus) 1

/-- The inverse of a number that a prime modulus does not divide. -/
def inverse (modulus n : Nat) : Nat :=
  powMod modulus n (modulus - 2)

/-- The ordinate of the given parity over `x`, if `x` is the abscissa of a point. -/
def ordinate? (odd : Bool) (x : Nat) : Option Nat :=
  let square := (x * x % fieldSize * x + 7) % fieldSize
  let y := powMod fieldSize square ((fieldSize + 1) / 4)
  if x < fieldSize ∧ y * y % fieldSize = square then
    some (if (y % 2 == 1) = odd then y else fieldSize - y)
  else none

/-- Any point but the one at infinity. -/
structure Point where
  odd : Bool
  x : Nat
  onCurve : (ordinate? odd x).isSome
deriving DecidableEq

namespace Point

def y (p : Point) : Nat :=
  (ordinate? p.odd p.x).get p.onCurve

def ofAbscissa? (odd : Bool) (x : Nat) : Option Point :=
  if h : (ordinate? odd x).isSome then some ⟨odd, x, h⟩ else none

theorem ofAbscissa?_self (p : Point) : ofAbscissa? p.odd p.x = some p := by
  simp [ofAbscissa?, p.onCurve]

theorem x_lt (p : Point) : p.x < fieldSize := by
  have h := p.onCurve
  unfold ordinate? at h
  grind

end Point

/-- The point `(x / z², y / z³)`, or infinity where `z` is zero. -/
structure Projective where
  x : Nat
  y : Nat
  z : Nat

namespace Projective

def infinity : Projective := ⟨1, 1, 0⟩

def times (a b : Nat) : Nat := a * b % fieldSize

/-- The difference of two numbers below the modulus. -/
def minus (a b : Nat) : Nat := (a + fieldSize - b) % fieldSize

def double (p : Projective) : Projective :=
  if p.z = 0 then p
  else
    let yy := times p.y p.y
    let s := times (4 * p.x) yy
    let m := times (3 * p.x) p.x
    let x := minus (times m m) (2 * s % fieldSize)
    ⟨x, minus (times m (minus s x)) (times (8 * yy) yy), times (2 * p.y) p.z⟩

/-- The sum with the point `(x, y)`. -/
def add (p : Projective) (x y : Nat) : Projective :=
  if p.z = 0 then ⟨x, y, 1⟩
  else
    let zz := times p.z p.z
    let h := minus (times x zz) p.x
    let r := minus (times y (times zz p.z)) p.y
    if h = 0 then if r = 0 then p.double else infinity
    else
      let hh := times h h
      let hhh := times hh h
      let v := times p.x hh
      let x3 := minus (minus (times r r) hhh) (2 * v % fieldSize)
      ⟨x3, minus (times r (minus v x3)) (times p.y hhh), times h p.z⟩

/-- The affine coordinates, unless the point is at infinity. -/
def affine? (p : Projective) : Option (Nat × Nat) :=
  if p.z = 0 then none
  else
    let i := inverse fieldSize p.z
    let ii := times i i
    some (times p.x ii, times p.y (times ii i))

end Projective

/-- One summand of a sum of multiples: its factor and the coordinates of the point. -/
structure Term where
  factor : Nat
  x : Nat
  y : Nat

def generatorX : Nat := 0x79be667ef9dcbbac55a06295ce870b07029bfcdb2dce28d959f2815b16f81798

def generatorY : Nat := 0x483ada7726a3c4655da4fbfc0e1108a8fd17b448a68554199c47d08ffb10d4b8

def Term.generator (factor : Nat) : Term := ⟨factor, generatorX, generatorY⟩

/-- Adds, bit by bit from the top, the multiples of all terms at once. -/
def sum (terms : List Term) : Projective :=
  (List.range 256).foldr
    (fun bit acc =>
      terms.foldl (fun acc t => if t.factor.testBit bit then acc.add t.x t.y else acc) acc.double)
    Projective.infinity

/-- The point that a multiple of the generator is, unless it is at infinity. -/
def Point.multiple? (factor : Nat) : Option Point := do
  let (x, y) ← (sum [.generator factor]).affine?
  ofAbscissa? (y % 2 == 1) x

end CurrencyLedger.Curve
