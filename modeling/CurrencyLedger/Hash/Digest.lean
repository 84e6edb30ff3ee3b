import CurrencyLedger.Hash.Sha256
import CurrencyLedger.Json.Printer
import CurrencyLedger.Text.Hex
import CurrencyLedger.Wire.Basic

/-!
Digests of 32 bytes. A message is hashed as the compact JSON text of a document behind a text that
names the kind of the message.
-/

namespace CurrencyLedger

structure Digest where
  bytes : List UInt8
  size : bytes.length = 32
deriving DecidableEq

namespace Digest

inductive Fault where
  | hex (fault : Hex.Fault)
  | length
deriving DecidableEq

def Fault.message : Fault → String
  | .hex fault => "Invalid hash hex: " ++ fault.message
  | .length => "Invalid hash length"

def text (d : Digest) : String :=
  Hex.text d.bytes

def parse (s : String) : Except Fault Digest :=
  match Hex.decode s with
  | .error fault => .error (.hex fault)
  | .ok bytes => if h : bytes.length = 32 then .ok ⟨bytes, h⟩ else .error .length

theorem parse_text (d : Digest) : parse d.text = .ok d := by
  simp [parse, text, Hex.decode_text, d.size]

def isZero (d : Digest) : Bool :=
  d.bytes.all (· == 0)

def ofBytes (bytes : List UInt8) : Digest :=
  ⟨sha256 bytes, length_sha256 bytes⟩

/-- The bytes that are hashed for a message. -/
def messageBytes (domain : String) (message : Doc) : List UInt8 :=
  Text.utf8 domain ++ Text.utf8 (Json.text message)

def ofMessage (domain : String) (message : Doc) : Digest :=
  ofBytes (messageBytes domain message)

end Digest

namespace Wire

def digest : Wire Digest :=
  text Digest.text Digest.parse fun fault => "Codec error: " ++ fault.message

/-- Bytes that are carried as hexadecimal digits. -/
def hexBytes : Wire (List UInt8) :=
  text Hex.text Hex.decode Hex.Fault.message

end Wire

end CurrencyLedger
