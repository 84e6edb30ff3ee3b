import CurrencyLedger.Document.Doc
import CurrencyLedger.Number.Decimal
import CurrencyLedger.Text.Quoted

/-!
JSON text of a document, in a compact form without blanks and in an indented form. Only quotes,
backslashes and control characters are escaped.
-/

namespace CurrencyLedger.Json

def escape (c : Char) : List Char :=
  if c = '"' then ['\\', '"']
  else if c = '\\' then ['\\', '\\']
  else if c = '\n' then ['\\', 'n']
  else if c = '\r' then ['\\', 'r']
  else if c = '\t' then ['\\', 't']
  else if c.toNat = 8 then ['\\', 'b']
  else if c.toNat = 12 then ['\\', 'f']
  else if c.toNat < 32 then
    ['\\', 'u', '0', '0', Text.hexDigit (c.toNat / 16), Text.hexDigit (c.toNat % 16)]
  else [c]

def quote (s : String) : List Char :=
  '"' :: s.toList.flatMap escape ++ ['"']

mutual

def chars : Doc → List Char
  | .null => "null".toList
  | .bool b => if b then "true".toList else "false".toList
  | .int n => Decimal.intChars n
  | .text s => quote s
  | .list [] => ['[', ']']
  | .list (d :: rest) => '[' :: chars d ++ itemChars rest ++ [']']
  | .record [] => ['\x7b', '\x7d']
  | .record ((name, d) :: rest) =>
    '\x7b' :: quote name ++ ':' :: chars d ++ memberChars rest ++ ['\x7d']

/-- All items but the first. -/
def itemChars : List Doc → List Char
  | [] => []
  | d :: rest => ',' :: chars d ++ itemChars rest

/-- All members but the first. -/
def memberChars : List (String × Doc) → List Char
  | [] => []
  | (name, d) :: rest => ',' :: quote name ++ ':' :: chars d ++ memberChars rest

end

def text (d : Doc) : String :=
  String.ofList (chars d)

/-- A line break and the blanks in front of the next line. -/
def lineBreak (indent : Nat) : List Char :=
  '\n' :: List.replicate (2 * indent) ' '

mutual

def indented (indent : Nat) : Doc → List Char
  | .list (d :: rest) =>
    '[' :: lineBreak (indent + 1) ++ indented (indent + 1) d ++ indentedItems indent rest ++
      lineBreak indent ++ [']']
  | .record ((name, d) :: rest) =>
    '\x7b' :: lineBreak (indent + 1) ++ quote name ++ ':' :: ' ' :: indented (indent + 1) d ++
      indentedMembers indent rest ++ lineBreak indent ++ ['\x7d']
  | .list [] => ['[', ']']
  | .record [] => ['\x7b', '\x7d']
  | .null => chars .null
  | .bool b => chars (.bool b)
  | .int n => chars (.int n)
  | .text s => chars (.text s)

def indentedItems (indent : Nat) : List Doc → List Char
  | [] => []
  | d :: rest =>
    ',' :: lineBreak (indent + 1) ++ indented (indent + 1) d ++ indentedItems indent rest

def indentedMembers (indent : Nat) : List (String × Doc) → List Char
  | [] => []
  | (name, d) :: rest =>
    ',' :: lineBreak (indent + 1) ++ quote name ++ ':' :: ' ' :: indented (indent + 1) d ++
      indentedMembers indent rest

end

/-- The form with one member or item a line. -/
def prettyText (d : Doc) : String :=
  String.ofList (indented 0 d)

end CurrencyLedger.Json
