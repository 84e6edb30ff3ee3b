import CurrencyLedger.Curve.Der
import CurrencyLedger.Curve.Point
import CurrencyLedger.Hash.Hmac

/-!
Signatures over 32-byte digests. Nonces follow from the secret number and the digest, so a digest
has one signature under a key; of the two equivalent values of `s` the lower one is made, and only
that one verifies.
-/

namespace CurrencyLedger.Ecdsa

open Curve

structure Signature where
  r : Nat
  s : Nat
deriving DecidableEq

namespace Signature

/-- The two numbers as 32 bytes each. -/
def compact (sig : Signature) : List UInt8 :=
  BigEndian.bytes 32 sig.r ++ BigEndian.bytes 32 sig.s

/-- Reads 64 bytes; numbers that are not below the group order are refused. -/
def ofCompact? (bytes : List UInt8) : Option Signature :=
  let r := BigEndian.number (bytes.take 32)
  let s := BigEndian.number (bytes.drop 32)
  if r < order ∧ s < order then some ⟨r, s⟩ else none

/-- A number that is not below the group order is read as zero. -/
def ofDer? (bytes : List UInt8) : Option Signature := do
  let (r, s) ← Der.pair? bytes
  let scalar (n : Nat) : Nat := if n < order then n else 0
  return ⟨scalar r, scalar s⟩

end Signature

/-- State of the generator of nonces. -/
structure Nonces where
  key : List UInt8
  value : List UInt8

namespace Nonces

/-- Mixes a byte and some data into the state. -/
def stir (g : Nonces) (mark : UInt8) (data : List UInt8) : Nonces :=
  let key := Hmac.hash g.key (g.value ++ mark :: data)
  ⟨key, Hmac.hash key g.value⟩

def seeded (data : List UInt8) : Nonces :=
  let start : Nonces := ⟨List.replicate 32 0, List.replicate 32 1⟩
  (start.stir 0 data).stir 1 data

def draw (g : Nonces) : Nat × Nonces :=
  let value := Hmac.hash g.key g.value
  (BigEndian.number value, ⟨g.key, value⟩)

end Nonces

/-- The signature that a nonce gives, unless one of its numbers is zero. -/
def signWith? (secret message nonce : Nat) : Option Signature := do
  if nonce = 0 ∨ order ≤ nonce then none
  else
    let (x, _) ← (Curve.sum [.generator nonce]).affine?
    let r := x % order
    let s := inverse order nonce * (message + r * secret) % order
    if r = 0 ∨ s = 0 then none
    else some ⟨r, if order / 2 < s then order - s else s⟩

/-- Draws nonces until one gives a signature. A draw fails with a probability below `2 ^ (-127)`. -/
def search (secret message : Nat) : Nat → Nonces → Signature
  | 0, _ => ⟨0, 0⟩
  | tries + 1, g =>
    let (nonce, g) := g.draw
    match signWith? secret message nonce with
    | some sig => sig
    | none => search secret message tries (g.stir 0 [])

def sign (secret : Nat) (digest : List UInt8) : Signature :=
  let message := BigEndian.number digest % order
  search secret message 64
    (.seeded (BigEndian.bytes 32 secret ++ BigEndian.bytes 32 message))

def verify (key : Point) (digest : List UInt8) (sig : Signature) : Bool :=
  if sig.r = 0 ∨ sig.s = 0 ∨ order / 2 < sig.s then false
  else
    let w := inverse order sig.s
    let message := BigEndian.number digest % order
    let terms := [.generator (message * w % order), ⟨sig.r * w % order, key.x, key.y⟩]
    match (Curve.sum terms).affine? with
    | none => false
    | some (x, _) => x % order = sig.r

end CurrencyLedger.Ecdsa
