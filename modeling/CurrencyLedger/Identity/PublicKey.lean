import CurrencyLedger.Curve.Ecdsa
import CurrencyLedger.Hash.Keccak
import CurrencyLedger.Text.Affix
import CurrencyLedger.Text.Hex
import CurrencyLedger.Wire.Basic

/-!
Public keys come in two kinds, which differ in how they are written: a native key with the abscissa
of its point only, an Ethereum key with both coordinates. The same point in two kinds is two keys.
-/

namespace CurrencyLedger

inductive KeyKind where
  | native
  | ethereum
deriving DecidableEq

namespace KeyKind

def publicEnding : KeyKind → String
  | .native => "mpu"
  | .ethereum => "epu"

def privateEnding : KeyKind → String
  | .native => "mpr"
  | .ethereum => "epr"

/-- The kind whose ending a text has, with the text in front of the ending. -/
def split? (ending : KeyKind → String) (s : String) : Option (KeyKind × String) :=
  [native, ethereum].findSome? fun kind =>
    (Text.dropSuffix? (ending kind).toList s.toList).map fun body => (kind, String.ofList body)

end KeyKind

structure PublicKey where
  kind : KeyKind
  point : Curve.Point
deriving DecidableEq

namespace PublicKey

inductive Fault where
  | unknownType (text : String)
  | hex (fault : Hex.Fault)
  | point
deriving DecidableEq

def Fault.message : Fault → String
  | .unknownType text => "Unknown public key type: " ++ text
  | .hex fault => "Invalid public key hex: " ++ fault.message
  | .point => "malformed public key"

/-- A mark for the parity of the ordinate, and the abscissa. -/
def compressed (p : Curve.Point) : List UInt8 :=
  (if p.odd then 3 else 2) :: BigEndian.bytes 32 p.x

def coordinates (p : Curve.Point) : List UInt8 :=
  BigEndian.bytes 32 p.x ++ BigEndian.bytes 32 p.y

def uncompressed (p : Curve.Point) : List UInt8 :=
  4 :: coordinates p

/-- Reads both coordinates; some marks also tell the parity of the ordinate. -/
def ofCoordinates? (mark : UInt8) (rest : List UInt8) : Option Curve.Point := do
  let y := BigEndian.number (rest.drop 32)
  let odd := y % 2 == 1
  let p ← Curve.Point.ofAbscissa? odd (BigEndian.number (rest.take 32))
  if p.y = y ∧ (mark = 4 ∨ mark = (if odd then 7 else 6)) then some p else none

def ofBytes? : List UInt8 → Option Curve.Point
  | [] => none
  | mark :: rest =>
    if rest.length = 32 then
      if mark = 2 ∨ mark = 3 then Curve.Point.ofAbscissa? (mark == 3) (BigEndian.number rest)
      else none
    else if rest.length = 64 then ofCoordinates? mark rest
    else none

def body (key : PublicKey) : String :=
  match key.kind with
  | .native => Hex.text (compressed key.point)
  | .ethereum => Hex.text (uncompressed key.point)

def text (key : PublicKey) : String :=
  key.body ++ key.kind.publicEnding

def parse (s : String) : Except Fault PublicKey :=
  match KeyKind.split? KeyKind.publicEnding s with
  | none => .error (.unknownType s)
  | some (kind, body) =>
    match Hex.decode body with
    | .error fault => .error (.hex fault)
    | .ok bytes =>
      match ofBytes? bytes with
      | none => .error .point
      | some point => .ok ⟨kind, point⟩

/-- Keys are ordered by kind, then by parity, then by abscissa. -/
def rank (key : PublicKey) : Nat :=
  let kind : Nat := if key.kind = .native then 0 else 1
  let odd : Nat := if key.point.odd then 1 else 0
  (2 * kind + odd) * Curve.fieldSize + key.point.x

inductive SignatureFault where
  | compact
  | der
deriving DecidableEq

def SignatureFault.message : SignatureFault → String
  | .compact => "Invalid compact signature: malformed signature"
  | .der => "Invalid DER signature: malformed signature"

/-- Checks a signature of a digest. A signature of 64 bytes is in the compact form, any other in the
distinguished encoding. -/
def verify (key : PublicKey) (digest signature : List UInt8) : Except SignatureFault Bool :=
  if signature.length = 64 then
    match Ecdsa.Signature.ofCompact? signature with
    | some sig => .ok (Ecdsa.verify key.point digest sig)
    | none => .error .compact
  else
    match Ecdsa.Signature.ofDer? signature with
    | some sig => .ok (Ecdsa.verify key.point digest sig)
    | none => .error .der

end PublicKey

def Wire.publicKey : Wire PublicKey :=
  text PublicKey.text PublicKey.parse fun fault => "Cryptographic error: " ++ fault.message

end CurrencyLedger
