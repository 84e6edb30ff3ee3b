import CurrencyLedger.Hash.Digest
import CurrencyLedger.Identity.PublicKey

/-!
Private keys: a secret number below the order of the curve, with its point.
-/

namespace CurrencyLedger

structure PrivateKey where
  kind : KeyKind
  secret : Nat
  point : Curve.Point
  isMultiple : Curve.Point.multiple? secret = some point
deriving DecidableEq

namespace PrivateKey

inductive Fault where
  | unknownType
  | hex (fault : Hex.Fault)
  | secret
deriving DecidableEq

def Fault.message : Fault → String
  | .unknownType => "Unknown private key type"
  | .hex fault => "Invalid private key hex: " ++ fault.message
  | .secret => "malformed or out-of-range secret key"

def ofBytes (kind : KeyKind) (bytes : List UInt8) : Except Fault PrivateKey :=
  let secret := BigEndian.number bytes
  if bytes.length = 32 ∧ 0 < secret ∧ secret < Curve.order then
    match h : Curve.Point.multiple? secret with
    | some point => .ok ⟨kind, secret, point, h⟩
    | none => .error .secret
  else .error .secret

/-- The key that belongs to a seed. -/
def ofSeed (seed : List UInt8) (kind : KeyKind) : Except Fault PrivateKey :=
  ofBytes kind (sha256 seed)

def publicKey (key : PrivateKey) : PublicKey :=
  ⟨key.kind, key.point⟩

def text (key : PrivateKey) : String :=
  Hex.text (BigEndian.bytes 32 key.secret) ++ key.kind.privateEnding

def parse (s : String) : Except Fault PrivateKey :=
  match KeyKind.split? KeyKind.privateEnding s with
  | none => .error .unknownType
  | some (kind, body) =>
    match Hex.decode body with
    | .error fault => .error (.hex fault)
    | .ok bytes => ofBytes kind bytes

def sign (key : PrivateKey) (digest : Digest) : List UInt8 :=
  (Ecdsa.sign key.secret digest.bytes).compact

end PrivateKey

end CurrencyLedger
