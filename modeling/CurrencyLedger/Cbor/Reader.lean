import CurrencyLedger.Cbor.Token
import CurrencyLedger.Document.Shape

/-!
Reading of CBOR: a machine takes the tokens one by one. `Cbor.read` gives a node for every byte
string. Tags are passed over, but each is a level of nesting.

Where a name is wanted, a list of two items is a name with its content, and so is a map whose number
of members stands in its first byte; such a map has one member, whatever the number is.
-/

namespace CurrencyLedger.Cbor

/-- A container that is being read: its shape, the number of items or members that are still to
come, if it was told, and what it holds so far, the latest first. A tag holds the one item that it
stands in front of. -/
inductive Frame where
  | list (shape : Shape) (left : Option Nat) (items : List Node)
  | key (shape : Shape) (left : Option Nat) (entries : List (Node × Node))
  | value (shape : Shape) (left : Option Nat) (entries : List (Node × Node)) (key : Node)
  | tag

namespace Frame

/-- The shape of the next item. -/
def next : Frame → Shape
  | .list shape _ items => shape.item items.length
  | .value shape _ _ k => shape.member k
  | _ => .any

/-- The start of a map. -/
def map (shape : Shape) (short : Bool) (count : Option Nat) : Frame :=
  match shape with
  | .choice => if short then .key .choice (some 1) [] else .key .any count []
  | shape => .key shape count []

def around? : Frame → Option Node.Around
  | .list _ _ items => some (.list items)
  | .key _ _ entries => some (.entry entries .fault)
  | .value _ _ entries k => some (.entry entries k)
  | .tag => none

end Frame

inductive State where
  /-- An item of the shape comes next. -/
  | item (shape : Shape) (frames : List Frame)
  | done (n : Node)
  | trailing (n : Node)
  | failed (n : Node)

namespace State

/-- The state where a container goes on. -/
def inside (frame : Frame) (frames : List Frame) : State :=
  .item frame.next (frame :: frames)

/-- What a tag leaves of an item: null is a value behind a tag. -/
def untag : Node → Node
  | .null => .undefined
  | n => n

/-- The state after an item. -/
def place (n : Node) : List Frame → State
  | [] => .done n
  | .list shape (some 1) items :: rest => place (shape.listNode (n :: items).reverse) rest
  | .list shape left items :: rest => inside (.list shape (left.map (· - 1)) (n :: items)) rest
  | .key shape left entries :: rest => inside (.value shape left entries n) rest
  | .value shape (some 1) entries key :: rest =>
    place (shape.mapNode ((key, n) :: entries).reverse) rest
  | .value shape left entries key :: rest =>
    inside (.key shape (left.map (· - 1)) ((key, n) :: entries)) rest
  | .tag :: rest => place (untag n) rest

def fail (n : Node) (frames : List Frame) : State :=
  .failed (Node.broken (frames.filterMap Frame.around?) n)

/-- The state after the start of a container. -/
def enter (frame : Frame) (frames : List Frame) : State :=
  match frame with
  | .list _ (some 0) _ => place (.list []) frames
  | .key _ (some 0) _ => place (.map []) frames
  | _ => inside frame frames

/-- One level deeper, if that is not too deep. -/
def deepen (frames : List Frame) (next : State) : State :=
  if Node.depthLimit ≤ frames.length then fail .fault frames else next

/-- The state after an end mark. -/
def leave : List Frame → State
  | .list shape none items :: rest => place (shape.listNode items.reverse) rest
  | .key shape none entries :: rest => place (shape.mapNode entries.reverse) rest
  | frames => fail .fault frames

def step : State → Token → State
  | .item shape frames, .openList count => deepen frames (enter (.list shape count []) frames)
  | .item shape frames, .openMap short count =>
    deepen frames (enter (.map shape short count) frames)
  | .item shape frames, .tag => deepen frames (.item shape.tagged (.tag :: frames))
  | .item _ frames, .endMark => leave frames
  | .item _ frames, .atom n => place n frames
  | .item _ frames, .bad => fail .fault frames
  | .done n, _ => .trailing n
  | .trailing n, _ => .trailing n
  | .failed n, _ => .failed n

/-- The reading when the bytes end. -/
def reading : State → Reading
  | .item _ frames => ⟨Node.broken (frames.filterMap Frame.around?) .fault, false⟩
  | .done n => ⟨n, false⟩
  | .trailing n => ⟨n, true⟩
  | .failed n => ⟨n, false⟩

end State

/-- Reads a document for a type of the shape. -/
def read (shape : Shape) (bs : List UInt8) : Reading :=
  ((Token.list bs).foldl State.step (.item shape [])).reading

end CurrencyLedger.Cbor
