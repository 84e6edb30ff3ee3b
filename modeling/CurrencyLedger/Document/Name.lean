import CurrencyLedger.Document.Node
import CurrencyLedger.Text.Utf8

/-!
Nodes as names: which member of a record, or which value of a finite type, a node speaks of.
-/

namespace CurrencyLedger

/-- Where a node comes from. A part of a tagged document is `buffered`: it was read in full before
its type was known. -/
inductive Form where
  | json
  | cbor
  | buffered
deriving DecidableEq

namespace Node

/-- The text that a node denotes. Bytes are a text in every form but JSON, which has none. -/
def text? (form : Form) : Node → Option String
  | .text s => some s
  | .bytes content => if form = .json then none else Text.ofUtf8? content
  | _ => none

/-- Whether a node names the entry with a name at a position of a list. Outside JSON a position is a
name too, but a buffered one only if it is written in one byte or in eight. -/
def names (form : Form) (position : Nat) (name : String) : Node → Bool
  | .text s => s == name
  | .bytes content => form != .json && content == Text.utf8 name
  | .int n => form != .json && n == position
  | .wide n => form == .cbor && n == position
  | _ => false

def isName (form : Form) : Node → Bool
  | .text _ => true
  | .bytes _ => form != .json
  | .int n => form != .json && 0 ≤ n
  | .wide _ => form == .cbor
  | _ => false

end Node

end CurrencyLedger
