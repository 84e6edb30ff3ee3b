import CurrencyLedger.Cbor.Reader
import CurrencyLedger.Cbor.Writer
import CurrencyLedger.Json.Printer
import CurrencyLedger.Json.Reader
import CurrencyLedger.Wire.Basic

/-!
The two document formats of a type with a wire: JSON and CBOR. Nothing may stand behind a document.
JSON need not be UTF-8 as a whole, only where a string is read.
-/

namespace CurrencyLedger

namespace Wire

variable {α : Type}

/-- Reads a document to its end. A fault inside it counts before what stands behind it. -/
def ofReading (w : Wire α) (form : Form) (reading : Reading) : Except ReadError α := do
  let a ← w.read form reading.root
  if reading.trailing then .error .malformed else .ok a

def ofJsonBytes (w : Wire α) (bs : List UInt8) : Except ReadError α :=
  w.ofReading .json (Json.read bs)

def ofJson (w : Wire α) (s : String) : Except ReadError α :=
  w.ofJsonBytes (Text.utf8 s)

def ofCbor (w : Wire α) (bs : List UInt8) : Except ReadError α :=
  w.ofReading .cbor (Cbor.read w.shape bs)

def jsonText (w : Wire α) (a : α) : String :=
  Json.text (w.write a)

def cborBytes (w : Wire α) (a : α) : List UInt8 :=
  Cbor.bytes (w.write a)

end Wire

inductive Format where
  | json
  | cbor
deriving DecidableEq

namespace Format

def all : List Format := [json, cbor]

def name : Format → String
  | json => "json"
  | cbor => "cbor"

def encode {α : Type} (w : Wire α) (a : α) : Format → List UInt8
  | json => Text.utf8 (w.jsonText a)
  | cbor => w.cborBytes a

def decode {α : Type} (w : Wire α) (bs : List UInt8) : Format → Except ReadError α
  | json => w.ofJsonBytes bs
  | cbor => w.ofCbor bs

end Format

def Wire.format : Wire Format :=
  choice "variant identifier" Format.all Format.name

end CurrencyLedger
