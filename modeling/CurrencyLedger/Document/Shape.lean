import CurrencyLedger.Document.Name

/-!
Shapes: at which places of a document a name of a finite type is wanted. CBOR has forms of a name
with content that look like other containers, so its reader has to know these places.
-/

namespace CurrencyLedger

inductive Shape where
  | any
  /-- A name of a finite type. -/
  | choice
  | list (item : Shape)
  /-- A map with named members, or the list of their values. -/
  | record (members : List (String × Shape))

namespace Shape

/-- The shape of the item at a position of a list. -/
def item (position : Nat) : Shape → Shape
  | .list item => item
  | .record members => (members[position]?.map (·.2)).getD .any
  | _ => .any

/-- The shape of the value that a key has in a map. -/
def member (key : Node) : Shape → Shape
  | .record members =>
    let found := members.zipIdx.find? fun ((name, _), i) => key.names .cbor i name
    (found.map (·.1.2)).getD .any
  | _ => .any

/-- The shape behind a tag. A name with content has no tag. -/
def tagged : Shape → Shape
  | .choice => .any
  | shape => shape

/-- The node of a list in a place of the shape. -/
def listNode : Shape → List Node → Node
  | .choice, [name, content] => .variant name content
  | _, items => .list items

/-- The node of a map in a place of the shape. -/
def mapNode : Shape → List (Node × Node) → Node
  | .choice, [(name, content)] => .variant name content
  | _, entries => .map entries

end Shape

end CurrencyLedger
