import CurrencyLedger.Wire.Basic

/-!
Wires of types with named members. A record is written with its members in order. It is read from a
map, whose entries are looked at in the order of the document, or from a list of the members'
values.
-/

namespace CurrencyLedger

structure Field (α : Type) where
  name : String
  wire : Wire α
  /-- The value in a map without the member. -/
  absent : Option α := none
  /-- The value in a list that ends before the member. -/
  absentLast : Option α := none
  /-- Values whose member is not written. -/
  hides : α → Bool := fun _ => false

/-- A member that is always there. -/
def Field.of {α : Type} (name : String) (wire : Wire α) : Field α where
  name := name
  wire := wire

/-- Members in their order. -/
inductive Fields : List Type → Type 1 where
  | nil : Fields []
  | cons {α : Type} {ts : List Type} (field : Field α) (rest : Fields ts) : Fields (α :: ts)

@[reducible] def Tuple : List Type → Type
  | [] => Unit
  | α :: ts => α × Tuple ts

/-- The members that have been read. -/
@[reducible] def Slots : List Type → Type
  | [] => Unit
  | α :: ts => Option α × Slots ts

namespace Fields

def count {ts : List Type} (_ : Fields ts) : Nat :=
  ts.length

def shapes : {ts : List Type} → Fields ts → List (String × Shape)
  | _, .nil => []
  | _, .cons field rest => (field.name, field.wire.shape) :: rest.shapes

def emptySlots : {ts : List Type} → Fields ts → Slots ts
  | _, .nil => ()
  | _, .cons _ rest => (none, rest.emptySlots)

def write : {ts : List Type} → Fields ts → Tuple ts → List (String × Doc)
  | _, .nil, () => []
  | _, .cons field rest, (a, as) =>
    if field.hides a then rest.write as else (field.name, field.wire.write a) :: rest.write as

/-- Reads one entry into the slot of its member, the first member being at `position`. Entries of no
member are passed over. -/
def put (form : Form) (key value : Node) :
    (position : Nat) → {ts : List Type} → Fields ts → Slots ts → Except ReadError (Slots ts)
  | _, _, .nil, () =>
    match value with
    | .fault => .error .malformed
    | _ => .ok ()
  | position, _, .cons field rest, (slot, slots) =>
    if key.names form position field.name then
      match slot with
      | some _ => .error (.repeated field.name)
      | none => do return (some (← field.wire.read form value), slots)
    else do return (slot, ← rest.put form key value (position + 1) slots)

/-- The members when the map has ended. -/
def finish : {ts : List Type} → Fields ts → Slots ts → Except ReadError (Tuple ts)
  | _, .nil, () => .ok ()
  | _, .cons field rest, (slot, slots) =>
    match slot.or field.absent with
    | some a => do return (a, ← rest.finish slots)
    | none => .error (.missing field.name)

def putEntries (form : Form) {ts : List Type} (fields : Fields ts) :
    List (Node × Node) → Slots ts → Except ReadError (Slots ts)
  | [], slots => .ok slots
  | (key, value) :: rest, slots =>
    if key.isName form then do
      let slots ← fields.put form key value 0 slots
      fields.putEntries form rest slots
    else .error (key.reject "field identifier")

/-- A number of things in messages. -/
def countText (n : Nat) : String :=
  Decimal.ofNat n ++ (if n = 1 then " element" else " elements")

/-- Reads the items of a list as the members from `position` on. -/
def readItems (form : Form) (title : String) (total : Nat) :
    (position : Nat) → {ts : List Type} → Fields ts → List Node → Except ReadError (Tuple ts)
  | _, _, .nil, [] => .ok ()
  | position, _, .nil, rest =>
    .error (.wrongCount (position + rest.length) (countText position ++ " in sequence"))
  | position, _, .cons field rest, [] =>
    match field.absentLast with
    | some a => do return (a, ← rest.readItems form title total (position + 1) [])
    | none => .error (.wrongCount position (title ++ " with " ++ countText total))
  | position, _, .cons field rest, n :: ns => do
    let a ← field.wire.read form n
    return (a, ← rest.readItems form title total (position + 1) ns)

def read {ts : List Type} (fields : Fields ts) (title : String) (form : Form) :
    Node → Except ReadError (Tuple ts)
  | .map entries => do fields.finish (← fields.putEntries form entries fields.emptySlots)
  | .list items => fields.readItems form title fields.count 0 items
  | n => .error (n.reject title)

end Fields

/-- A type with named members; `title` speaks of it in messages. -/
def Wire.record {α : Type} {ts : List Type} (title : String) (fields : Fields ts)
    (members : α → Tuple ts) (make : Tuple ts → α) : Wire α where
  write a := .record (fields.write (members a))
  read form n := (fields.read title form n).map make
  shape := .record fields.shapes

end CurrencyLedger
