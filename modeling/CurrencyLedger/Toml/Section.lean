import CurrencyLedger.Toml.Quoted
import CurrencyLedger.Toml.Table

/-!
Sections of TOML: a header, unless it is the first section, and the values under it with their keys.
-/

namespace CurrencyLedger.Toml

def isKeyChar (c : Char) : Bool :=
  c.isAlphanum || c == '-' || c == '_'

/-- One part of a dotted key. -/
def keyPart? (cs : List Char) : Option (String × List Char) :=
  match cs.takeWhile isKeyChar with
  | [] => quotedKey? cs
  | name => some (String.ofList name, cs.dropWhile isKeyChar)

/-- Containers that may be open at once, and parts that a dotted key may have. -/
def limit : Nat := 79

/-- A dotted key with at most `parts` parts, and the blanks around it. -/
def key? : (parts : Nat) → List Char → Option (List String × List Char)
  | 0, _ => none
  | parts + 1, cs => do
    let (name, rest) ← keyPart? (dropBlanks cs)
    match dropBlanks rest with
    | '.' :: rest => do
      let (names, rest) ← key? parts rest
      return (name :: names, rest)
    | rest => return ([name], rest)

/-- Drops a comment up to the end of its line. -/
def dropComment? : List Char → Option (List Char)
  | '#' :: rest =>
    match rest.dropWhile isPrintable with
    | [] => some []
    | '\n' :: rest => some ('\n' :: rest)
    | '\r' :: '\n' :: rest => some ('\n' :: rest)
    | _ => none
  | cs => some cs

/-- Drops the rest of a line, which must hold nothing but a comment. -/
def endLine? (cs : List Char) : Option (List Char) := do
  match ← dropComment? (dropBlanks cs) with
  | [] => return []
  | '\n' :: rest => return rest
  | '\r' :: '\n' :: rest => return rest
  | _ => none

/-- Drops blanks, line breaks and comments inside a list. Each step takes at least one character, so
the number of characters is enough as `fuel`. -/
def dropFiller? : (fuel : Nat) → List Char → Option (List Char)
  | 0, cs => some cs
  | fuel + 1, cs =>
    match dropGap cs with
    | '#' :: rest => do dropFiller? fuel (← dropComment? ('#' :: rest))
    | rest => some rest

/-- The items of a list up to its end; a comma may stand behind the last one. -/
def items? (item? : List Char → Option (Node × List Char)) :
    (fuel : Nat) → List Char → Option (List Node × List Char)
  | 0, _ => none
  | fuel + 1, cs => do
    match ← dropFiller? cs.length cs with
    | ']' :: rest => return ([], rest)
    | cs =>
      let (n, rest) ← item? cs
      match ← dropFiller? rest.length rest with
      | ']' :: rest => return ([n], rest)
      | ',' :: rest => do
        let (ns, rest) ← items? item? fuel rest
        return (n :: ns, rest)
      | _ => none

/-- A value with its key. -/
def keyValue? (value? : List Char → Option (Node × List Char)) (cs : List Char) :
    Option ((List String × Node) × List Char) := do
  let (path, rest) ← key? limit cs
  match rest with
  | '=' :: rest => do
    let (n, rest) ← value? (dropBlanks rest)
    return ((path, n), dropBlanks rest)
  | _ => none

/-- The pairs of a table on one line, behind its first brace or a comma. -/
def pairs? (value? : List Char → Option (Node × List Char)) :
    (fuel : Nat) → List Char → Option (List (List String × Node) × List Char)
  | 0, _ => none
  | fuel + 1, cs => do
    let (p, rest) ← keyValue? value? cs
    match rest with
    | '\x7d' :: rest => return ([p], rest)
    | ',' :: rest => do
      let (ps, rest) ← pairs? value? fuel rest
      return (p :: ps, rest)
    | _ => none

/-- A value without parts. -/
def plainValue? (cs : List Char) : Option (Node × List Char) :=
  match quoted? cs with
  | some (s, rest) => some (.text s, rest)
  | none =>
    let (token, rest) := splitScalar cs
    (scalar? token).map fun n => (n, rest)

/-- A value in which at most `depth` containers are open at once. -/
def value? : (depth : Nat) → List Char → Option (Node × List Char)
  | 0, cs => plainValue? cs
  | depth + 1, cs =>
    match cs with
    | '[' :: rest => do
      let (ns, rest) ← items? (value? depth) (rest.length + 1) rest
      return (.list ns, rest)
    | '\x7b' :: rest =>
      match dropBlanks rest with
      | '\x7d' :: rest => some (.map [], rest)
      | _ => do
        let (ps, rest) ← pairs? (value? depth) (rest.length + 1) rest
        return ((← Table.insertAll? ps []).node, rest)
    | _ => plainValue? cs

inductive Header where
  | table (path : List String)
  /-- A header that may be repeated. -/
  | item (path : List String)

structure Section where
  header : Header
  values : List (List String × Node)

def header? : List Char → Option (Header × List Char)
  | '[' :: rest => do
    let (path, rest) ← key? limit rest
    match rest with
    | ']' :: ']' :: rest => return (.item path, ← endLine? rest)
    | _ => none
  | cs => do
    let (path, rest) ← key? limit cs
    match rest with
    | ']' :: rest => return (.table path, ← endLine? rest)
    | _ => none

/-- The values in front of the first header, and the sections. Each line takes at least one
character, so the number of characters is enough as `fuel`. -/
def sections? : (fuel : Nat) → List Char → Option (List (List String × Node) × List Section)
  | 0, _ => none
  | fuel + 1, cs =>
    match dropGap cs with
    | [] => some ([], [])
    | '#' :: rest => do sections? fuel (← endLine? ('#' :: rest))
    | '[' :: rest => do
      let (header, rest) ← header? rest
      let (values, sections) ← sections? fuel rest
      return ([], ⟨header, values⟩ :: sections)
    | cs => do
      let (p, rest) ← keyValue? (value? limit) cs
      let (values, sections) ← sections? fuel (← endLine? rest)
      return (p :: values, sections)

end CurrencyLedger.Toml
