import CurrencyLedger.Toml.Scalar
import CurrencyLedger.Text.Quoted

/-!
Texts between quotes in TOML, in four forms: with escapes or without, and on one line or on several.
Readers start behind the opening quotes and return the text with what follows the closing quotes.
-/

namespace CurrencyLedger.Toml

/-- Puts a character in front of a text that was read. -/
def push (c : Char) (s : Option (List Char × List Char)) : Option (List Char × List Char) :=
  s.map fun (cs, rest) => (c :: cs, rest)

/-- Characters that may stand for themselves. -/
def isPrintable (c : Char) : Bool :=
  c == '\t' || (32 ≤ c.toNat && c.toNat ≠ 127)

/-- The character with a number in hexadecimal digits. -/
def numbered? (ds : List Char) : Option Char := do
  let n := (← ds.mapM (digit? 16)).foldl (fun n d => 16 * n + d) 0
  if n.isValidChar then some (Char.ofNat n) else none

def escaped? (c : Char) : Option Char :=
  if c = '"' ∨ c = '\\' then some c
  else if c = 'b' then some (Char.ofNat 8)
  else if c = 't' then some '\t'
  else if c = 'n' then some '\n'
  else if c = 'f' then some (Char.ofNat 12)
  else if c = 'r' then some '\r'
  else none

def basic? : List Char → Option (List Char × List Char)
  | [] => none
  | '"' :: rest => some ([], rest)
  | '\\' :: 'u' :: a :: b :: c :: d :: rest => do push (← numbered? [a, b, c, d]) (basic? rest)
  | '\\' :: 'U' :: a :: b :: c :: d :: e :: f :: g :: h :: rest => do
    push (← numbered? [a, b, c, d, e, f, g, h]) (basic? rest)
  | '\\' :: c :: rest => do push (← escaped? c) (basic? rest)
  | c :: rest => if isPrintable c && c != '\\' then push c (basic? rest) else none

def literal? : List Char → Option (List Char × List Char)
  | [] => none
  | c :: rest =>
    if c = Text.apostrophe then some ([], rest)
    else if isPrintable c then push c (literal? rest)
    else none

def dropBlanks (cs : List Char) : List Char :=
  cs.dropWhile fun c => c == ' ' || c == '\t'

/-- Drops one line break, if there is one. -/
def dropBreak : List Char → List Char
  | '\n' :: rest => rest
  | '\r' :: '\n' :: rest => rest
  | cs => cs

/-- Drops blanks and line breaks. -/
def dropGap : List Char → List Char
  | '\r' :: '\n' :: rest => dropGap rest
  | c :: rest => if c == ' ' || c == '\t' || c == '\n' then dropGap rest else c :: rest
  | [] => []

/-- What follows a backslash at the end of a line; there must be a line break. -/
def afterGap? (cs : List Char) : Option (List Char) :=
  match dropBlanks cs with
  | '\n' :: rest => some (dropGap rest)
  | '\r' :: '\n' :: rest => some (dropGap rest)
  | _ => none

/-- One or two more quotes in front of three are text. -/
def closing? (mark : Char) : List Char → Option (List Char × List Char)
  | a :: b :: c :: d :: e :: rest =>
    if [a, b, c, d, e].all (· == mark) then some ([mark, mark], rest)
    else if [a, b, c, d].all (· == mark) then some ([mark], e :: rest)
    else if [a, b, c].all (· == mark) then some ([], d :: e :: rest)
    else none
  | [a, b, c, d] =>
    if [a, b, c, d].all (· == mark) then some ([mark], [])
    else if [a, b, c].all (· == mark) then some ([], [d])
    else none
  | [a, b, c] => if [a, b, c].all (· == mark) then some ([], []) else none
  | _ => none

/-- The part of a text of several lines that starts a list of characters: a character or none, with
what follows it. -/
def linesPart? (escapes : Bool) : List Char → Option (Option Char × List Char)
  | [] => none
  | '\n' :: rest => some (some '\n', rest)
  | '\r' :: '\n' :: rest => some (some '\n', rest)
  | '\\' :: rest =>
    if escapes then
      match rest with
      | 'u' :: a :: b :: c :: d :: rest => (numbered? [a, b, c, d]).map fun c => (some c, rest)
      | 'U' :: a :: b :: c :: d :: e :: f :: g :: h :: rest =>
        (numbered? [a, b, c, d, e, f, g, h]).map fun c => (some c, rest)
      | c :: rest =>
        match escaped? c with
        | some c => some (some c, rest)
        | none => (afterGap? (c :: rest)).map fun rest => (none, rest)
      | [] => none
    else some (some '\\', rest)
  | c :: rest => if isPrintable c then some (some c, rest) else none

/-- Reads a text of several lines. Each part takes at least one character, so the number of
characters is enough as `fuel`. -/
def lines? (mark : Char) : (fuel : Nat) → List Char → Option (List Char × List Char)
  | 0, _ => none
  | fuel + 1, cs =>
    match closing? mark cs with
    | some closed => some closed
    | none =>
      match linesPart? (mark == '"') cs with
      | some (some c, rest) => push c (lines? mark fuel rest)
      | some (none, rest) => lines? mark fuel rest
      | none => none

/-- Reads a text in any form. -/
def quoted? : List Char → Option (String × List Char)
  | a :: rest =>
    if a = '"' ∨ a = Text.apostrophe then
      let scanned :=
        match rest with
        | b :: c :: more =>
          if b = a ∧ c = a then lines? a (more.length + 1) (dropBreak more)
          else if a = '"' then basic? rest
          else literal? rest
        | _ => if a = '"' then basic? rest else literal? rest
      scanned.map fun (cs, rest) => (String.ofList cs, rest)
    else none
  | [] => none

/-- Keys in quotes stand on one line. -/
def quotedKey? : List Char → Option (String × List Char)
  | '"' :: rest => (basic? rest).map fun (cs, rest) => (String.ofList cs, rest)
  | c :: rest =>
    if c = Text.apostrophe then (literal? rest).map fun (cs, rest) => (String.ofList cs, rest)
    else none
  | [] => none

def escape (c : Char) : List Char :=
  if c = '"' ∨ c = '\\' then ['\\', c]
  else if isPrintable c then [c]
  else
    ['\\', 'u', '0', '0', Text.hexDigit (c.toNat / 16), Text.hexDigit (c.toNat % 16)]

/-- The form on one line with escapes. -/
def quote (s : String) : String :=
  String.ofList ('"' :: s.toList.flatMap escape ++ ['"'])

end CurrencyLedger.Toml
