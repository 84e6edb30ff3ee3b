import CurrencyLedger.Wire.Record

/-!
Wires of types with several kinds of values, told apart by a tag. The tag is the member `_hint`,
which is written first and may stand anywhere in a map; in a list it is the first item. A tagged
document is read in full before its content is looked at.
-/

namespace CurrencyLedger

def hintMember : String := "_hint"

/-- One kind of values of a tagged type. -/
structure Case (α : Type) where
  tag : String
  /-- Speaks of the kind in messages. -/
  title : String
  /-- The members of a value of this kind. -/
  members? : α → Option (List (String × Doc))
  /-- Reads the document without its tag. -/
  read : Form → Node → Except ReadError α
  /-- The shape of the document without its tag. -/
  shape : Shape := .any

namespace Case

def record {α : Type} {ts : List Type} (tag title : String) (fields : Fields ts)
    (members? : α → Option (Tuple ts)) (make : Tuple ts → α) : Case α where
  tag := tag
  title := title
  members? a := (members? a).map fields.write
  read form n := (fields.read title form n).map make
  shape := .record fields.shapes

/-- A kind with one value, without members. Members that stand there are passed over. -/
def single {α : Type} (tag title : String) (value : α) (isValue : α → Bool) : Case α where
  tag := tag
  title := title
  members? a := if isValue a then some [] else none
  read
    | _, .list (n :: rest) =>
      .error (.wrongCount (rest.length + [n].length) (Fields.countText 0 ++ " in sequence"))
    | _, _ => .ok value

/-- The wire of the values of one kind, whose documents need no tag. -/
def untagged {α : Type} (c : Case α) : Wire α where
  write a := .record ((c.members? a).getD [])
  read := c.read
  shape := c.shape

end Case

/-- Whether a key is the name of the tag. -/
def Node.isHint (form : Form) : Node → Bool
  | .text s => s == hintMember
  | .bytes content => form != .json && content == Text.utf8 hintMember
  | _ => false

/-- Takes the tag out of a tagged document and returns it with the rest. -/
def Node.splitHint (form : Form) : Node → Except ReadError (Node × Node)
  | .map entries =>
    match entries.partition fun entry => entry.1.isHint form with
    | ([(_, tag)], rest) => .ok (tag, .map rest)
    | _ => .error .untagged
  | .list (tag :: rest) => .ok (tag, .list rest)
  | _ => .error .untagged

/-- The case that a tag names. -/
def Case.find? {α : Type} (form : Form) (tag : Node) (cases : List (Case α)) : Option (Case α) :=
  (cases.zipIdx.find? fun (c, i) => tag.names form i c.tag).map (·.1)

def Wire.tagged {α : Type} (cases : List (Case α)) : Wire α where
  write a :=
    match cases.findSome? fun c => (c.members? a).map fun members => (c.tag, members) with
    | some (tag, members) => .record ((hintMember, .text tag) :: members)
    | none => .null
  read form n := do
    if n.isReadable then
      let (tag, content) ← n.splitHint form
      match Case.find? form tag cases with
      | some c => c.read .buffered content
      | none => .error (.unknownName "a known tag")
    else .error .malformed

end CurrencyLedger
