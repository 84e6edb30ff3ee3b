import CurrencyLedger.Document.Doc
import CurrencyLedger.Number.BigEndian
import CurrencyLedger.Text.Utf8

/-!
CBOR bytes of a document. Every item starts with a head: a major type and an argument in the
shortest form. Records are maps with text keys.
-/

namespace CurrencyLedger.Cbor

/-- The head of a major type with an argument of up to 64 bits. -/
def head (major argument : Nat) : List UInt8 :=
  let first (info : Nat) : UInt8 := UInt8.ofNat (32 * major + info)
  if argument < 24 then [first argument]
  else if argument < UInt8.size then first 24 :: BigEndian.bytes 1 argument
  else if argument < UInt16.size then first 25 :: BigEndian.bytes 2 argument
  else if argument < UInt32.size then first 26 :: BigEndian.bytes 4 argument
  else first 27 :: BigEndian.bytes 8 argument

def textBytes (s : String) : List UInt8 :=
  head 3 s.utf8ByteSize ++ Text.utf8 s

mutual

def bytes : Doc → List UInt8
  | .null => [0xf6]
  | .bool b => [if b then 0xf5 else 0xf4]
  | .int n => if n < 0 then head 1 (n.natAbs - 1) else head 0 n.natAbs
  | .text s => textBytes s
  | .list items => head 4 items.length ++ itemBytes items
  | .record members => head 5 members.length ++ memberBytes members

def itemBytes : List Doc → List UInt8
  | [] => []
  | d :: rest => bytes d ++ itemBytes rest

def memberBytes : List (String × Doc) → List UInt8
  | [] => []
  | (name, d) :: rest => textBytes name ++ bytes d ++ memberBytes rest

end

end CurrencyLedger.Cbor
