import CurrencyLedger.Json.Token

/-!
Reading of JSON: a machine takes the tokens one by one. `Json.read` gives a node for all bytes; that
a string is not UTF-8 is a fault of this node only.
-/

namespace CurrencyLedger.Json

/-- What has been read so far, by what may come next. The list of containers that are open around
the next place starts with the innermost. -/
inductive State where
  | value (around : List Node.Around)
  /-- After the start of a list: an item or the end. -/
  | firstItem (around : List Node.Around)
  /-- After an item: a comma or the end. -/
  | afterItem (items : List Node) (around : List Node.Around)
  /-- After the start of a record: a key or the end. -/
  | firstKey (around : List Node.Around)
  | key (entries : List (Node × Node)) (around : List Node.Around)
  | colon (entries : List (Node × Node)) (key : Node) (around : List Node.Around)
  /-- After a member: a comma or the end. -/
  | afterEntry (entries : List (Node × Node)) (around : List Node.Around)
  | done (n : Node)
  | trailing (n : Node)
  | failed (n : Node)

namespace State

/-- The state after a value. -/
def finish (n : Node) : List Node.Around → State
  | [] => .done n
  | .list items :: around => .afterItem (n :: items) around
  | .entry entries name :: around => .afterEntry ((name, n) :: entries) around

/-- The state after a container. -/
def close (n : Node) (around : List Node.Around) : State :=
  finish (if around.length < Node.depthLimit then n else .unreadable) around

def failWith (n : Node) (around : List Node.Around) : State :=
  .failed (Node.broken around n)

/-- The state at a place where the text breaks off or no token fits. -/
def fail : State → State
  | .value around => failWith .fault around
  | .firstItem around => failWith (.list [.fault]) around
  | .afterItem items around => failWith (.list (items.reverse ++ [.fault])) around
  | .firstKey around => failWith (.map [(.fault, .fault)]) around
  | .key entries around => failWith (.map (entries.reverse ++ [(.fault, .fault)])) around
  | .colon entries name around => failWith (.map (entries.reverse ++ [(name, .fault)])) around
  | .afterEntry entries around => failWith (.map (entries.reverse ++ [(.fault, .fault)])) around
  | .done n => .done n
  | .trailing n => .trailing n
  | .failed n => .failed n

def startValue (around : List Node.Around) : Token → State
  | .atom n => finish n around
  | .openList => .firstItem around
  | .openRecord => .firstKey around
  | _ => failWith .fault around

def step : State → Token → State
  | .value around, t => startValue around t
  | .firstItem around, .closeList => close (.list []) around
  | .firstItem around, t => startValue (.list [] :: around) t
  | .afterItem items around, .closeList => close (.list items.reverse) around
  | .afterItem items around, .comma => .value (.list items :: around)
  | .firstKey around, .closeRecord => close (.map []) around
  | .firstKey around, .atom (.text s) => .colon [] (.text s) around
  | .firstKey around, .atom .unreadable => .colon [] .unreadable around
  | .key entries around, .atom (.text s) => .colon entries (.text s) around
  | .key entries around, .atom .unreadable => .colon entries .unreadable around
  | .colon entries name around, .colon => .value (.entry entries name :: around)
  | .afterEntry entries around, .closeRecord => close (.map entries.reverse) around
  | .afterEntry entries around, .comma => .key entries around
  | .done n, _ => .trailing n
  | state, _ => state.fail

/-- The reading when the text ends. -/
def reading (state : State) : Reading :=
  match state.fail with
  | .done n => ⟨n, false⟩
  | .trailing n => ⟨n, true⟩
  | .failed n => ⟨n, false⟩
  | _ => ⟨.fault, false⟩

end State

def read (bs : List UInt8) : Reading :=
  ((Token.list bs).foldl State.step (.value [])).reading

end CurrencyLedger.Json
