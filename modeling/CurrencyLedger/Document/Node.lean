import CurrencyLedger.Document.Doc
import CurrencyLedger.Number.Shortest
import CurrencyLedger.Text.Quoted

/-!
Documents as they were read.

A node also holds what only a reader can meet: a broken place is a `fault`, which every container
around it ends with, and a part that can be passed over but has no value is `unreadable`. So a
reader of a type that walks a node in order meets the faults of the input in the order of the input.
-/

namespace CurrencyLedger

inductive Node where
  | null
  /-- A mark for "nothing" that is not null. -/
  | undefined
  | bool (b : Bool)
  | int (n : Int)
  /-- An integer that is written in two or four bytes. -/
  | wide (n : Nat)
  /-- A number that is not written as an integer, or does not fit into 64 bits. -/
  | number (x : Float)
  | bytes (content : List UInt8)
  | text (s : String)
  | list (items : List Node)
  | map (entries : List (Node × Node))
  /-- A name with its content, where a name is wanted. -/
  | variant (name content : Node)
  | unreadable
  | fault

namespace Node

mutual

/-- Holds of a node that has a value in every part. -/
def isReadable : Node → Bool
  | .unreadable => false
  | .fault => false
  | .list items => areReadable items
  | .map entries => entriesReadable entries
  | .variant name content => name.isReadable && content.isReadable
  | _ => true

def areReadable : List Node → Bool
  | [] => true
  | n :: rest => n.isReadable && areReadable rest

def entriesReadable : List (Node × Node) → Bool
  | [] => true
  | (key, value) :: rest => key.isReadable && value.isReadable && entriesReadable rest

end

/-- A container that is being read, with what it holds so far, the latest first. -/
inductive Around where
  | list (before : List Node)
  | entry (before : List (Node × Node)) (key : Node)

/-- Closes the containers around a broken node, the innermost first. Each gets what it held before
the break, the broken node and a fault. -/
def broken : List Around → Node → Node
  | [], n => n
  | .list before :: rest, n => broken rest (.list (before.reverse ++ [n, .fault]))
  | .entry before key :: rest, n =>
    broken rest (.map (before.reverse ++ [(key, n), (.fault, .fault)]))

/-- Nesting beyond this depth is not read. -/
def depthLimit : Nat := 127

/-- How messages speak of a node. -/
def description : Node → String
  | .null | .undefined => "null"
  | .bool b => "boolean `" ++ (if b then "true" else "false") ++ "`"
  | .int n => "integer `" ++ Decimal.ofInt n ++ "`"
  | .wide n => "integer `" ++ Decimal.ofNat n ++ "`"
  | .number x => "floating point `" ++ Shortest.compactText x ++ "`"
  | .bytes _ => "byte array"
  | .text s => "string " ++ Text.quoted s
  | .list _ => "sequence"
  | .map _ => "map"
  | .variant _ _ => "enum"
  | .unreadable | .fault => "nothing"

end Node

/-- A document with a mark that says whether anything stood behind it. -/
structure Reading where
  root : Node
  trailing : Bool

end CurrencyLedger
